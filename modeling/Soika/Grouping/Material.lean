import Soika.Domain.Trim
import Soika.Grouping.Characters

/-! # Collisions of the grouping material

A fingerprint is the hash of its components joined with a control character. The
components may contain that character, and a custom fingerprint may spell out the
default material of other events, so different components can be hashed from one text.
-/

namespace Soika

open Separated

/-- The components of the fingerprint of an event; without a custom fingerprint, its default
material stands for itself. -/
def fingerprintComponents (event : NormalizedEvent) : List String :=
  if event.hasCustomFingerprint then expandComponents event else [defaultMaterial event]

def hashInput (event : NormalizedEvent) : String :=
  if event.hasCustomFingerprint then customMaterial event else defaultMaterial event

def PlainCustom (event : NormalizedEvent) : Prop :=
  event.hasCustomFingerprint ∧ ∀ component ∈ event.fingerprint, ¬ isPlaceholder component

/-- No component of the client holds the control character, nor does, where the default material
is used, a text it is made from. -/
def SeparatorFree (event : NormalizedEvent) : Prop :=
  (∀ component ∈ event.fingerprint, separator ∉ component.toList) ∧
    (¬ PlainCustom event → ∀ text ∈ materialTexts event, separator ∉ text.toList)

section

variable (event event' : NormalizedEvent)

theorem fingerprintNormalized_eq : fingerprintNormalized event = hashHex (hashInput event) := by
  unfold fingerprintNormalized hashInput customFingerprint defaultFingerprint
  split <;> rfl

theorem customMaterial_eq :
    customMaterial event = (String.singleton separator).intercalate (expandComponents event) := by
  by_cases h : expandComponents event = [defaultMaterial event]
  · simp only [customMaterial, h, if_true, String.intercalate_singleton]
  · simp only [customMaterial, h, if_false]

theorem SeparatorFree.components {event : NormalizedEvent} (h : SeparatorFree event) :
    ∀ component ∈ fingerprintComponents event, separator ∉ component.toList := by
  have hdefault : ¬ PlainCustom event → separator ∉ (defaultMaterial event).toList := by
    intro hplain hc
    rcases mem_defaultMaterial hc with hc | ⟨text, htext, hc⟩
    · exact absurd hc (by decide)
    · exact h.2 hplain text htext hc
  intro component hcomponent
  unfold fingerprintComponents at hcomponent
  split at hcomponent
  · obtain ⟨raw, hraw, rfl⟩ := List.mem_map.mp hcomponent
    split
    · rename_i hplaceholder
      exact hdefault fun hplain => hplain.2 raw hraw hplaceholder
    · exact h.1 raw hraw
  · rename_i hcustom
    rw [List.mem_singleton.mp hcomponent]
    exact hdefault fun hplain => hcustom hplain.1

end

end Soika
