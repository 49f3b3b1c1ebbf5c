import Mathlib.Data.List.Nodup
import Soika.Ingest.Tags

/-! # Requests for tag-mute rules -/

namespace Soika

/-- `key` and `value`, trimmed. -/
def TagMatch.trimmed (tag : TagMatch) : TagMatch := ⟨trim tag.key, trim tag.value⟩

/-- The loop of `validate_tags`, with the keys seen so far. -/
def validateFrom (seen : List String) : List TagMatch → Except String (List TagMatch)
  | [] => .ok []
  | tag :: tags =>
    let key := trim tag.key
    let value := trim tag.value
    if key = "" ∨ value = "" then .error "tag key and value must not be empty"
    else if key ∈ seen then .error ("duplicate tag key: " ++ key)
    else do
      let cleaned ← validateFrom (key :: seen) tags
      return ⟨key, value⟩ :: cleaned

/-- Validate and normalize the tag pairs of a request; every refusal is a `400`. -/
def validateTags (tags : List TagMatch) : Except String (List TagMatch) :=
  if tags.isEmpty then .error "at least one tag is required" else validateFrom [] tags

theorem validateFrom_eq_ok_iff {seen : List String} {tags cleaned : List TagMatch} :
    validateFrom seen tags = .ok cleaned ↔
      cleaned = tags.map TagMatch.trimmed ∧ (∀ t ∈ cleaned, t.key ≠ "" ∧ t.value ≠ "") ∧
        (∀ t ∈ cleaned, t.key ∉ seen) ∧ (cleaned.map TagMatch.key).Nodup := by
  induction tags generalizing seen cleaned with
  | nil =>
    constructor
    · intro h
      cases h
      simp
    · rintro ⟨rfl, -⟩
      rfl
  | cons tag tags ih =>
    simp only [validateFrom]
    split
    · rename_i hblank
      refine iff_of_false (fun h => by cases h) ?_
      rintro ⟨rfl, hne, -⟩
      have := hne _ List.mem_cons_self
      exact hblank.elim this.1 this.2
    rename_i hblank
    split
    · rename_i hseen
      refine iff_of_false (fun h => by cases h) ?_
      rintro ⟨rfl, -, hnew, -⟩
      exact hnew _ List.mem_cons_self hseen
    rename_i hseen
    constructor
    · intro h
      cases hrec : validateFrom (trim tag.key :: seen) tags with
      | error msg =>
        rw [hrec] at h
        cases h
      | ok rest =>
        rw [hrec] at h
        cases h
        obtain ⟨rfl, hne, hnew, hnodup⟩ := ih.mp hrec
        refine ⟨rfl, List.forall_mem_cons.mpr ⟨not_or.mp hblank, hne⟩,
          List.forall_mem_cons.mpr ⟨hseen, fun t ht hs => ?_⟩, ?_⟩
        · exact hnew t ht (List.mem_cons_of_mem _ hs)
        refine List.nodup_cons.mpr ⟨fun hmem => ?_, hnodup⟩
        obtain ⟨t, ht, hkey⟩ := List.mem_map.mp hmem
        exact hnew t ht (hkey ▸ List.mem_cons_self)
    · rintro ⟨rfl, hne, hnew, hnodup⟩
      obtain ⟨hkey, hnodup⟩ := List.nodup_cons.mp hnodup
      have hrec : validateFrom (trim tag.key :: seen) tags = .ok (tags.map TagMatch.trimmed) := by
        refine ih.mpr ⟨rfl, fun t ht => hne t (List.mem_cons_of_mem _ ht), fun t ht hmem => ?_,
          hnodup⟩
        rcases List.mem_cons.mp hmem with heq | hmem
        · exact hkey (List.mem_map.mpr ⟨t, ht, heq⟩)
        · exact hnew t (List.mem_cons_of_mem _ ht) hmem
      rw [hrec]
      rfl

/-- What is accepted: pairs that are not blank, trimmed, with distinct keys. -/
theorem validateTags_eq_ok_iff {tags cleaned : List TagMatch} :
    validateTags tags = .ok cleaned ↔
      tags ≠ [] ∧ cleaned = tags.map TagMatch.trimmed ∧
        (∀ t ∈ cleaned, t.key ≠ "" ∧ t.value ≠ "") ∧ (cleaned.map TagMatch.key).Nodup := by
  rw [validateTags]
  split
  · rename_i hempty
    simp [List.isEmpty_iff.mp hempty]
  · rename_i hne
    rw [validateFrom_eq_ok_iff]
    simp_all

end Soika
