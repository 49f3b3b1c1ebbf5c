import Mathlib.Data.List.DropRight
import Soika.Domain.Project
import Soika.Domain.Trim
import Soika.Error

/-! # Slugs from free text

How the public address of a project is derived from its name, and that the result keeps the
rule for addresses, whatever the name.
-/

namespace Soika

/-- `Uuid::simple`: thirty-two hexadecimal digits. -/
def uuidSimple (id : BitVec 128) : List Char :=
  (List.range 32).map fun i => Nat.digitChar (id.toNat / 16 ^ (31 - i) % 16)

/-- The loop of `slugify`: letters and digits in lowercase, and a dash for what is between them. -/
def slugifyChars : (chars : List Char) → (slug : String) → (prevDash : Bool) → String
  | [], slug, _ => slug
  | ch :: chars, slug, prevDash =>
    if SLUG_MAX_LEN ≤ slug.utf8ByteSize then slug
    else if ch.isAlphanum then slugifyChars chars (slug.push ch.toLower) false
    else if !prevDash && slug ≠ "" then slugifyChars chars (slug.push '-') true
    else slugifyChars chars slug prevDash

/-- `str::trim_matches` of a dash. -/
def trimDashes (s : String) : String :=
  String.ofList ((s.toList.dropWhile (· = '-')).rdropWhile (· = '-'))

/-- Derive a valid slug from free text; a random one when nothing is left of it. -/
def slugify (input : String) (id : BitVec 128) : String :=
  let trimmed := trimDashes (slugifyChars input.toList "" false)
  if trimmed = "" then "project-" ++ String.ofList ((uuidSimple id).take 8) else trimmed

def isWordChar (c : Char) : Bool := c.isLower || c.isDigit

theorem isWordChar_iff {c : Char} : isWordChar c = true ↔
    (97 ≤ c.toNat ∧ c.toNat ≤ 122) ∨ (48 ≤ c.toNat ∧ c.toNat ≤ 57) := by
  rw [isWordChar, Bool.or_eq_true, isLower_iff, isDigit_iff]

theorem ne_dash_of_isWordChar {c : Char} (h : isWordChar c = true) : c ≠ '-' := by
  rintro rfl
  revert h
  decide

theorem utf8Size_of_isWordChar {c : Char} (h : isWordChar c = true) : c.utf8Size = 1 := by
  rw [isWordChar_iff] at h
  rw [Char.utf8Size_eq_one_iff, UInt32.le_iff_toNat_le]
  change c.toNat ≤ 127
  omega

theorem isWordChar_toLower {c : Char} (h : c.isAlphanum = true) : isWordChar c.toLower = true := by
  rw [isAlphanum_iff] at h
  unfold Char.toLower
  split
  · rename_i hupper
    rw [isWordChar_iff]
    left
    simp only [ge_iff_le, UInt32.le_iff_toNat_le] at hupper
    simp only [Char.toNat, UInt32.toNat_add]
    simp at hupper ⊢
    omega
  · rename_i hupper
    rw [isWordChar, Bool.or_eq_true]
    rcases h with hc | hc
    · rcases (Bool.or_eq_true _ _).mp hc with hc | hc
      · exact absurd (of_decide_eq_true hc) hupper
      · exact .inl hc
    · exact .inr hc

theorem toLower_of_isWordChar {c : Char} (h : isWordChar c = true) : c.toLower = c := by
  rw [isWordChar_iff] at h
  unfold Char.toLower
  rw [dif_neg]
  rintro ⟨hlow, hhigh⟩
  simp only [ge_iff_le, UInt32.le_iff_toNat_le] at hlow hhigh
  change _ ≤ c.toNat at hlow
  change c.toNat ≤ _ at hhigh
  simp at hlow hhigh
  omega

theorem isAlphanum_of_isWordChar {c : Char} (h : isWordChar c = true) : c.isAlphanum = true := by
  rw [isWordChar_iff] at h
  rw [isAlphanum_iff, isAlpha_iff, isDigit_iff]
  omega

/-- The beginning of a slug: words behind single dashes, the last of which may still be empty. -/
structure SlugStart (text : List Char) : Prop where
  char : ∀ c ∈ text, isWordChar c = true ∨ c = '-'
  head : text.head? ≠ some '-'
  single : ¬ ['-', '-'] <:+: text

theorem validateSlug_eq_ok {slug : String} : validateSlug slug = .ok () ↔
    slug ≠ "" ∧ slug.utf8ByteSize ≤ SLUG_MAX_LEN ∧ SlugStart slug.toList ∧
      slug.toList.getLast? ≠ some '-' := by
  have hchar : (slug.toList.all fun c => c.isLower || c.isDigit || c = '-') = true ↔
      ∀ c ∈ slug.toList, isWordChar c = true ∨ c = '-' := by
    simp [isWordChar]
  unfold validateSlug
  simp only [ite_error_eq_ok, not_not, hchar, String.toList_eq_nil_iff, not_or, Nat.not_lt]
  constructor
  · rintro ⟨hne, hlen, hchars, ⟨hhead, hlast, hsingle⟩, -⟩
    exact ⟨hne, hlen, ⟨hchars, hhead, hsingle⟩, hlast⟩
  · rintro ⟨hne, hlen, ⟨hchars, hhead, hsingle⟩, hlast⟩
    exact ⟨hne, hlen, hchars, ⟨hhead, hlast, hsingle⟩, trivial⟩

namespace SlugStart

variable {text : List Char} {c : Char}

theorem nil : SlugStart [] where
  char := by simp
  head := by simp
  single := by simp

theorem of_prefix {longer : List Char} (h : SlugStart longer) (hinit : text <+: longer) :
    SlugStart text where
  char c hc := h.char c (hinit.subset hc)
  head hhead := by
    obtain ⟨rest, rfl⟩ := hinit
    apply h.head
    rw [List.head?_append, hhead, Option.some_or]
  single hdouble := h.single (hdouble.trans hinit.isInfix)

theorem head_push (h : SlugStart text) (hc : text = [] → c ≠ '-') :
    (text ++ [c]).head? ≠ some '-' := by
  cases text with
  | nil => exact fun hhead => hc rfl (Option.some.inj hhead)
  | cons d text => exact h.head

/-- A double dash of a longer text is one of the text, or its last character is a dash after a dash. -/
theorem single_push (h : SlugStart text) (hc : c = '-' → text.getLast? ≠ some '-') :
    ¬ ['-', '-'] <:+: text ++ [c] := by
  rw [List.infix_concat_iff, List.suffix_concat_iff]
  rintro ((hnil | ⟨t, ht, hsuffix⟩) | hinfix)
  · cases hnil
  · obtain ⟨ht, hlast⟩ := List.append_inj' (show ['-'] ++ ['-'] = t ++ [c] from ht) rfl
    subst ht
    obtain ⟨rest, rfl⟩ := hsuffix
    exact hc (List.cons.inj hlast).1.symm (by simp)
  · exact h.single hinfix

theorem push_word (h : SlugStart text) (hc : isWordChar c = true) : SlugStart (text ++ [c]) where
  char := List.forall_mem_append.mpr ⟨h.char, by simp [hc]⟩
  head := h.head_push fun _ => ne_dash_of_isWordChar hc
  single := h.single_push fun hdash => absurd hdash (ne_dash_of_isWordChar hc)

theorem push_dash (h : SlugStart text) (hne : text ≠ []) (hlast : text.getLast? ≠ some '-') :
    SlugStart (text ++ ['-']) where
  char := List.forall_mem_append.mpr ⟨h.char, by simp⟩
  head := h.head_push fun hnil => absurd hnil hne
  single := h.single_push fun _ => hlast

end SlugStart

/-- What the loop has written: the beginning of a slug, within the length, and whether it ends in a
dash. -/
structure Slugified (slug : String) (prevDash : Bool) : Prop where
  start : SlugStart slug.toList
  length : slug.utf8ByteSize ≤ SLUG_MAX_LEN
  dash : prevDash = true ↔ slug.toList.getLast? = some '-'

theorem Slugified.empty : Slugified "" false := ⟨.nil, Nat.zero_le _, by simp⟩

theorem Slugified.push_word {slug : String} {prevDash : Bool} (h : Slugified slug prevDash)
    (hroom : slug.utf8ByteSize < SLUG_MAX_LEN) {c : Char} (hc : isWordChar c = true) :
    Slugified (slug.push c) false where
  start := by
    rw [String.toList_push]
    exact h.start.push_word hc
  length := by
    rw [String.utf8ByteSize_push, utf8Size_of_isWordChar hc]
    exact hroom
  dash := by
    rw [String.toList_push]
    simpa using ne_dash_of_isWordChar hc

theorem Slugified.push_dash {slug : String} (h : Slugified slug false)
    (hroom : slug.utf8ByteSize < SLUG_MAX_LEN) (hne : slug ≠ "") : Slugified (slug.push '-') true where
  start := by
    rw [String.toList_push]
    exact h.start.push_dash (mt String.toList_eq_nil_iff.mp hne) (by simpa using h.dash)
  length := by
    rw [String.utf8ByteSize_push]
    exact hroom
  dash := by
    rw [String.toList_push]
    simp

theorem slugifyChars_slugified (chars : List Char) {slug : String} {prevDash : Bool}
    (h : Slugified slug prevDash) : ∃ prevDash', Slugified (slugifyChars chars slug prevDash) prevDash' := by
  induction chars generalizing slug prevDash with
  | nil => exact ⟨prevDash, h⟩
  | cons ch chars ih =>
    rw [slugifyChars]
    split
    · exact ⟨prevDash, h⟩
    · rename_i hroom
      rw [Nat.not_le] at hroom
      split
      · rename_i halnum
        exact ih (h.push_word hroom (isWordChar_toLower halnum))
      · split
        · rename_i hdash
          rw [Bool.and_eq_true, Bool.not_eq_true', decide_eq_true_iff] at hdash
          obtain ⟨rfl, hne⟩ := hdash
          exact ih (h.push_dash hroom hne)
        · exact ih h

theorem slugifyChars_start (input : String) :
    SlugStart (slugifyChars input.toList "" false).toList ∧
      (slugifyChars input.toList "" false).utf8ByteSize ≤ SLUG_MAX_LEN := by
  obtain ⟨_, h⟩ := slugifyChars_slugified input.toList .empty
  exact ⟨h.start, h.length⟩

theorem trimDashes_of_start {slug : String} (h : SlugStart slug.toList) :
    trimDashes slug = String.ofList (slug.toList.rdropWhile (· = '-')) := by
  have hhead : slug.toList.dropWhile (· = '-') = slug.toList := by
    cases htext : slug.toList with
    | nil => rfl
    | cons c text =>
      apply List.dropWhile_cons_of_neg
      have := h.head
      rw [htext] at this
      simpa using this
  rw [trimDashes, hhead]

theorem validateSlug_trimDashes {slug : String} (h : SlugStart slug.toList)
    (hlength : slug.utf8ByteSize ≤ SLUG_MAX_LEN) (hne : trimDashes slug ≠ "") :
    validateSlug (trimDashes slug) = .ok () := by
  rw [trimDashes_of_start h] at hne ⊢
  have hinit := List.rdropWhile_prefix (p := fun c => decide (c = '-')) (l := slug.toList)
  rw [validateSlug_eq_ok, String.toList_ofList]
  refine ⟨hne, ?_, h.of_prefix hinit, ?_⟩
  · obtain ⟨rest, hrest⟩ := hinit
    have hslug : slug = String.ofList (slug.toList.rdropWhile (· = '-')) ++ String.ofList rest := by
      rw [← String.ofList_append, hrest, String.ofList_toList]
    have hsize := congrArg String.utf8ByteSize hslug
    rw [String.utf8ByteSize_append] at hsize
    omega
  · have hnil : slug.toList.rdropWhile (· = '-') ≠ [] := by
      intro hnil
      exact hne (by rw [hnil])
    rw [List.getLast?_eq_some_getLast hnil]
    intro hlast
    apply List.rdropWhile_last_not (fun c => decide (c = '-')) slug.toList hnil
    simpa using hlast

theorem trimDashes_valid {slug : String} (h : validateSlug slug = .ok ()) : trimDashes slug = slug := by
  obtain ⟨-, -, hstart, hlast⟩ := validateSlug_eq_ok.mp h
  have hsame : slug.toList.rdropWhile (· = '-') = slug.toList := by
    rw [List.rdropWhile_eq_self_iff]
    intro hne
    rw [List.getLast?_eq_some_getLast hne] at hlast
    simpa using hlast
  rw [trimDashes_of_start hstart, hsame, String.ofList_toList]

theorem slugifyChars_valid (rest : List Char) {slug : String} {prevDash : Bool}
    (hstart : SlugStart (slug.toList ++ rest))
    (hlength : (slug ++ String.ofList rest).utf8ByteSize ≤ SLUG_MAX_LEN)
    (hdash : prevDash = true → slug.toList.getLast? = some '-') :
    slugifyChars rest slug prevDash = slug ++ String.ofList rest := by
  induction rest generalizing slug prevDash with
  | nil => simp [slugifyChars]
  | cons c rest ih =>
    have hpush : slug ++ String.ofList (c :: rest) = slug.push c ++ String.ofList rest := by
      apply String.toList_inj.mp
      simp
    have hstart' : SlugStart ((slug.push c).toList ++ rest) := by
      rw [String.toList_push, List.append_assoc]
      exact hstart
    have hroom : ¬ SLUG_MAX_LEN ≤ slug.utf8ByteSize := by
      rw [hpush, String.utf8ByteSize_append, String.utf8ByteSize_push] at hlength
      have := c.utf8Size_pos
      omega
    rw [hpush] at hlength ⊢
    rw [slugifyChars, if_neg hroom]
    rcases hstart.char c (by simp) with hword | rfl
    · rw [if_pos (isAlphanum_of_isWordChar hword), toLower_of_isWordChar hword]
      exact ih hstart' hlength nofun
    · have hsingle : prevDash = false := by
        by_contra hprev
        rw [Bool.not_eq_false] at hprev
        obtain ⟨before, hbefore⟩ := List.getLast?_eq_some_iff.mp (hdash hprev)
        apply hstart.single
        rw [hbefore]
        exact ⟨before, rest, by simp⟩
      have hne : slug ≠ "" := by
        rintro rfl
        exact hstart.head rfl
      rw [if_neg (by decide), if_pos (by simp [hsingle, hne])]
      apply ih hstart' hlength
      simp

theorem slugify_valid {slug : String} (h : validateSlug slug = .ok ()) (id : BitVec 128) :
    slugify slug id = slug := by
  obtain ⟨hne, hlength, hstart, -⟩ := validateSlug_eq_ok.mp h
  have hloop : slugifyChars slug.toList "" false = "" ++ String.ofList slug.toList := by
    apply slugifyChars_valid
    · simpa using hstart
    · simpa using hlength
    · exact nofun
  rw [slugify, hloop, String.empty_append, String.ofList_toList, trimDashes_valid h, if_neg hne]

theorem isWordChar_digitChar {n : ℕ} (h : n < 16) : isWordChar n.digitChar = true := by
  have : ∀ n : Fin 16, isWordChar n.val.digitChar = true := by decide
  exact this ⟨n, h⟩

theorem isWordChar_uuidSimple (id : BitVec 128) : ∀ c ∈ uuidSimple id, isWordChar c = true := by
  intro c hc
  obtain ⟨i, -, rfl⟩ := List.mem_map.mp hc
  exact isWordChar_digitChar (Nat.mod_lt _ (by decide))

theorem Slugified.append_words {word : List Char} (hword : ∀ c ∈ word, isWordChar c = true)
    {slug : String} {prevDash : Bool} (h : Slugified slug prevDash)
    (hroom : slug.utf8ByteSize + word.length ≤ SLUG_MAX_LEN) :
    Slugified (slug ++ String.ofList word) (prevDash && word.isEmpty) := by
  induction word generalizing slug prevDash with
  | nil => simpa using h
  | cons c word ih =>
    obtain ⟨hc, hword⟩ := List.forall_mem_cons.mp hword
    rw [List.length_cons] at hroom
    have hpush : slug ++ String.ofList (c :: word) = slug.push c ++ String.ofList word := by
      apply String.toList_inj.mp
      simp
    rw [hpush, List.isEmpty_cons, Bool.and_false]
    apply ih hword (h.push_word (by omega) hc)
    rw [String.utf8ByteSize_push, utf8Size_of_isWordChar hc]
    omega

theorem Slugified.valid {slug : String} (h : Slugified slug false) (hne : slug ≠ "") :
    validateSlug slug = .ok () :=
  validateSlug_eq_ok.mpr ⟨hne, h.length, h.start, by simpa using h.dash⟩

theorem validateSlug_project {word : List Char} (hword : ∀ c ∈ word, isWordChar c = true)
    (hlength : word.length = 8) : validateSlug ("project-" ++ String.ofList word) = .ok () := by
  have hproject : Slugified "project" false :=
    Slugified.empty.append_words (List.all_eq_true.mp (by decide : "project".toList.all isWordChar))
      (by decide)
  have hstart : Slugified "project-" true := hproject.push_dash (by decide) (by decide)
  have hslug := hstart.append_words hword (by rw [hlength]; decide)
  have hnot : word.isEmpty = false := by
    rw [List.isEmpty_eq_false_iff]
    rintro rfl
    cases hlength
  rw [hnot, Bool.and_false] at hslug
  apply hslug.valid
  intro hempty
  have := congrArg String.toList hempty
  simp at this

theorem validateSlug_random (id : BitVec 128) :
    validateSlug ("project-" ++ String.ofList ((uuidSimple id).take 8)) = .ok () := by
  apply validateSlug_project
  · intro c hc
    exact isWordChar_uuidSimple id c (List.mem_of_mem_take hc)
  · rw [List.length_take, uuidSimple, List.length_map, List.length_range]
    rfl

theorem validateSlug_slugify (input : String) (id : BitVec 128) :
    validateSlug (slugify input id) = .ok () := by
  obtain ⟨hstart, hlength⟩ := slugifyChars_start input
  unfold slugify
  dsimp only
  split
  · exact validateSlug_random id
  · rename_i hne
    exact validateSlug_trimDashes hstart hlength hne

/-- Whatever the text, its slug is valid, is its own slug, and is the text itself when that is a
slug. -/
theorem slugify_correct (input : String) (id : BitVec 128) :
    validateSlug (slugify input id) = .ok () ∧
      (∀ again, slugify (slugify input id) again = slugify input id) ∧
      (validateSlug input = .ok () → slugify input id = input) := by
  have hvalid := validateSlug_slugify input id
  refine ⟨hvalid, slugify_valid hvalid, fun h => slugify_valid h id⟩

example : slugify "My Cool Project!" 0 = "my-cool-project" := by decide

end Soika
