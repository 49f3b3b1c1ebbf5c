import Soika.Domain.Trim
import Soika.Grouping.Scan

/-! # Volatile parts of a message are masked

Numbers, random ids and UUIDs are written as placeholders, so what they are does not show in the
normalized message. The scan comes to such a part from the same side with the same output, whatever
the part is, and goes on behind it in the same way.
-/

namespace Soika

/-- The text does not end with a letter or digit. -/
def EndsApart (s : List Char) : Prop := ∀ a c, s = a ++ [c] → c.isAlphanum = false

/-- A maximal run of ASCII letters and digits of a message. -/
structure MaximalRun (before run after : List Char) : Prop where
  ne_nil : run ≠ []
  alnum : ∀ c ∈ run, c.isAlphanum = true
  before : EndsApart before
  after : Apart after

/-- No canonical UUID of the message overlaps the run. -/
def NoUuidOver (before run after : List Char) : Prop :=
  ∀ b u a, before ++ run ++ after = b ++ u ++ a → isUuid u = true →
    b.length + u.length ≤ before.length ∨ (before ++ run).length ≤ b.length

/-- Digits only. -/
def Digits (run : List Char) : Prop := ∀ c ∈ run, c.isDigit = true

/-- At least six characters, letters and digits mixed. -/
structure Mixed (run : List Char) : Prop where
  length_le : 6 ≤ run.length
  digit : ∃ c ∈ run, c.isDigit = true
  letter : ∃ c ∈ run, c.isAlpha = true

theorem normalizeToken_of_digits {run : List Char} (hne : run ≠ []) (h : Digits run) :
    normalizeToken run = placeholderInt := by
  have hdigit : run.any Char.isDigit = true := by
    obtain ⟨c, run, rfl⟩ := List.exists_cons_of_ne_nil hne
    simp [h c List.mem_cons_self]
  have halpha : run.any Char.isAlpha = false := by
    rw [List.any_eq_false]
    intro c hc halpha
    have hdigit := h c hc
    rw [isAlpha_iff] at halpha
    rw [isDigit_iff] at hdigit
    omega
  simp [normalizeToken, hdigit, halpha]

theorem normalizeToken_of_mixed {run : List Char} (h : Mixed run) :
    normalizeToken run = placeholderId := by
  have hdigit : run.any Char.isDigit = true := List.any_eq_true.mpr h.digit
  have halpha : run.any Char.isAlpha = true := List.any_eq_true.mpr h.letter
  have hlen : minRandomTokenLen ≤ run.length := h.length_le
  simp [normalizeToken, hdigit, halpha, hlen]

def Blind (before rest : List Char) : Prop :=
  ∀ a t, before = a ++ t → t ≠ [] → isUuid ((t ++ rest).take 36) = true → 36 ≤ t.length

theorem EndsApart.suffix {s a t : List Char} (h : EndsApart s) (hs : s = a ++ t) : EndsApart t :=
  fun b c ht => h (a ++ b) c (by rw [hs, ht, List.append_assoc])

theorem Blind.suffix {s a t rest : List Char} (h : Blind s rest) (hs : s = a ++ t) : Blind t rest :=
  fun b t' ht => h (a ++ b) t' (by rw [hs, ht, List.append_assoc])

/-- A UUID at the start of the text does not depend on what follows the text. -/
theorem Blind.isUuid_take {s rest : List Char} (h : Blind s rest) (hne : s ≠ [])
    (hu : isUuid ((s ++ rest).take 36) = true) (rest' : List Char) :
    (s ++ rest').take 36 = s.take 36 ∧ isUuid (s.take 36) = true := by
  have hlen := h [] s rfl hne hu
  rw [List.take_append_of_le_length hlen] at hu
  exact ⟨List.take_append_of_le_length hlen, hu⟩

/-- The scan gets to the end of the text with an output and a state that do not depend on what
follows. -/
theorem normalizeChars_append {s rest rest' : List Char} (hend : EndsApart s) (h : Blind s rest)
    (h' : Blind s rest') (prevSpace : Bool) : ∃ out space,
      normalizeChars 0 prevSpace (s ++ rest) = out ++ normalizeChars 0 space rest ∧
      normalizeChars 0 prevSpace (s ++ rest') = out ++ normalizeChars 0 space rest' := by
  induction hn : s.length using Nat.strong_induction_on generalizing s prevSpace with
  | _ n ih =>
    cases s with
    | nil => exact ⟨[], prevSpace, rfl, rfl⟩
    | cons c cs =>
      rw [List.length_cons] at hn
      have hnext : ∀ {a t : List Char}, c :: cs = a ++ t → a ≠ [] → ∀ space, ∃ out space',
          normalizeChars 0 space (t ++ rest) = out ++ normalizeChars 0 space' rest ∧
          normalizeChars 0 space (t ++ rest') = out ++ normalizeChars 0 space' rest' := by
        intro a t hsplit hne space
        have hpos := List.length_pos_iff.mpr hne
        have hlen := congrArg List.length hsplit
        rw [List.length_cons, List.length_append] at hlen
        exact ih _ (by omega) (hend.suffix hsplit) (h.suffix hsplit) (h'.suffix hsplit) space rfl
      by_cases hspace : isWhitespace c = true
      · obtain ⟨out, space, hout, hout'⟩ := hnext (a := [c]) rfl (by simp) true
        refine ⟨(if prevSpace then [] else [' ']) ++ out, space, ?_, ?_⟩
        · rw [List.cons_append, normalizeChars_space hspace, hout, List.append_assoc]
        · rw [List.cons_append, normalizeChars_space hspace, hout', List.append_assoc]
      by_cases hu : isUuid ((c :: cs).take 36) = true
      · have hsplit := (List.take_append_drop 36 (c :: cs)).symm
        have hne : (c :: cs).take 36 ≠ [] := by simp
        obtain ⟨out, space, hout, hout'⟩ := hnext hsplit hne false
        refine ⟨placeholderUuid ++ out, space, ?_, ?_⟩
        · rw [hsplit, List.append_assoc, normalizeChars_uuid hu, hout, List.append_assoc]
        · rw [hsplit, List.append_assoc, normalizeChars_uuid hu, hout', List.append_assoc]
      by_cases hc : c.isAlphanum = true
      · -- the token ends in the text
        have hsplit := (List.takeWhile_append_dropWhile (p := Char.isAlphanum) (l := c :: cs)).symm
        have hne : (c :: cs).takeWhile Char.isAlphanum ≠ [] := by simp [hc]
        have hdrop : (c :: cs).dropWhile Char.isAlphanum ≠ [] := by
          intro hnil
          rw [List.dropWhile_eq_nil_iff] at hnil
          obtain ⟨a, d, had⟩ := List.eq_nil_or_concat' (c :: cs) |>.resolve_left (by simp)
          have := hend a d had
          rw [hnil d (by rw [had]; simp)] at this
          cases this
        have htoken : ∀ r, Blind (c :: cs) r → TokenAt ((c :: cs).takeWhile Char.isAlphanum)
            ((c :: cs).dropWhile Char.isAlphanum ++ r) := by
          intro r hr
          refine ⟨hne, fun d hd => List.mem_takeWhile_imp hd, fun d hd => ?_, ?_⟩
          · rw [List.head?_append_of_ne_nil _ hdrop, List.head?_eq_some_head hdrop] at hd
            cases hd
            exact List.head_dropWhile_not Char.isAlphanum hdrop
          · by_contra hbad
            rw [Bool.not_eq_false, ← List.append_assoc, ← hsplit] at hbad
            exact hu (hr.isUuid_take (by simp) hbad r).2
        obtain ⟨out, space, hout, hout'⟩ := hnext hsplit hne false
        refine ⟨normalizeToken ((c :: cs).takeWhile Char.isAlphanum) ++ out, space, ?_, ?_⟩
        · rw [hsplit, List.append_assoc, normalizeChars_token (htoken rest h), hout,
            List.append_assoc, ← hsplit]
        · rw [hsplit, List.append_assoc, normalizeChars_token (htoken rest' h'), hout',
            List.append_assoc, ← hsplit]
      · obtain ⟨out, space, hout, hout'⟩ := hnext (a := [c]) rfl (by simp) false
        have hstep : ∀ r, normalizeChars 0 prevSpace (c :: r) = c :: normalizeChars 0 false r :=
          normalizeChars_other (Bool.eq_false_of_not_eq_true hspace)
            (Bool.eq_false_of_not_eq_true hc)
        exact ⟨c :: out, space, by rw [List.cons_append, hstep, hout]; rfl,
          by rw [List.cons_append, hstep, hout']; rfl⟩

theorem NoUuidOver.blind {before run after : List Char} (h : NoUuidOver before run after) :
    Blind before (run ++ after) := by
  intro a t hsplit hne hu
  have hlen := isUuid_length hu
  have hpos := List.length_pos_iff.mpr hne
  have hsplit' := congrArg List.length hsplit
  rw [List.length_append] at hsplit'
  have hover := h a ((t ++ (run ++ after)).take 36) ((t ++ (run ++ after)).drop 36)
    (by rw [List.append_assoc a, List.take_append_drop, hsplit]; simp) hu
  rw [hlen, List.length_append] at hover
  omega

theorem NoUuidOver.tokenAt {before run after : List Char} (h : NoUuidOver before run after)
    (hrun : MaximalRun before run after) : TokenAt run after := by
  refine ⟨hrun.ne_nil, hrun.alnum, hrun.after, ?_⟩
  by_contra hu
  rw [Bool.not_eq_false] at hu
  have hlen := isUuid_length hu
  have hpos := List.length_pos_iff.mpr hrun.ne_nil
  have hover := h before ((run ++ after).take 36) ((run ++ after).drop 36)
    (by rw [List.append_assoc, List.append_assoc, List.take_append_drop]) hu
  rw [hlen, List.length_append] at hover
  omega

/-- A UUID behind no letter or digit is not overlapped by one that starts before it: the dashes of the
two would not fit. -/
theorem blind_uuid {before u : List Char} (hend : EndsApart before) (hu : isUuid u = true)
    (after : List Char) : Blind before (u ++ after) := by
  intro a t hsplit hne hw
  by_contra hlt
  have hlen := isUuid_length hu
  have hpos := List.length_pos_iff.mpr hne
  obtain ⟨t, d, rfl⟩ := (List.eq_nil_or_concat' t).resolve_left hne
  rw [List.length_append, List.length_singleton] at hlt
  have hget : ∀ i < 36, ((t ++ [d] ++ (u ++ after)).take 36)[i]? = (t ++ [d] ++ (u ++ after))[i]? :=
    fun i hi => List.getElem?_take_of_lt hi
  have hbefore : DashAt t.length := by
    refine (dashAt_of_isUuid hw (c := d) ?_).mp (hend (a ++ t) d (by rw [hsplit, List.append_assoc]))
    rw [hget _ (by omega), List.getElem?_append_left (by simp),
      List.getElem?_append_right le_rfl, Nat.sub_self, List.getElem?_cons_zero]
  have hdash : u[8]? = some '-' := by
    have hfits := (isUuid_iff.mp hu).2 8 u[8] (List.getElem?_eq_getElem (by omega))
    rw [if_pos (by decide)] at hfits
    rw [List.getElem?_eq_getElem (by omega), hfits]
  have hafter : t.length + 1 + 8 < 36 → DashAt (t.length + 1 + 8) := by
    intro hin
    refine (dashAt_of_isUuid hw (c := '-') ?_).mp (by decide)
    rw [hget _ hin, List.getElem?_append_right (by simp)]
    simp only [List.length_append, List.length_singleton, Nat.add_sub_cancel_left]
    rw [List.getElem?_append_left (by omega), hdash]
  unfold DashAt at hbefore hafter
  omega

theorem EndsApart.dropWhile {s : List Char} (h : EndsApart s) :
    EndsApart (s.dropWhile isWhitespace) := by
  have hsplit := (List.takeWhile_append_dropWhile (p := isWhitespace) (l := s)).symm
  exact h.suffix hsplit

theorem Apart.rdropWhile {s : List Char} (h : Apart s) : Apart (s.rdropWhile isWhitespace) := by
  obtain ⟨rest, hrest⟩ := List.rdropWhile_prefix isWhitespace (l := s)
  intro c hc
  refine h c ?_
  obtain ⟨cs, hcs⟩ := List.head?_eq_some_iff.mp hc
  rw [← hrest, hcs]
  rfl

theorem MaximalRun.trimmed {before run after : List Char} (h : MaximalRun before run after) :
    MaximalRun (before.dropWhile isWhitespace) run (after.rdropWhile isWhitespace) :=
  ⟨h.ne_nil, h.alnum, h.before.dropWhile, h.after.rdropWhile⟩

theorem NoUuidOver.trimmed {before run after : List Char} (h : NoUuidOver before run after) :
    NoUuidOver (before.dropWhile isWhitespace) run (after.rdropWhile isWhitespace) := by
  intro b u a hsplit hu
  obtain ⟨tail, htail⟩ := List.rdropWhile_prefix isWhitespace (l := after)
  have hbefore := List.takeWhile_append_dropWhile (p := isWhitespace) (l := before)
  have hlen := congrArg List.length hbefore
  have hmessage : before ++ run ++ after =
      before.takeWhile isWhitespace ++ b ++ u ++ (a ++ tail) :=
    calc before ++ run ++ after
        = before.takeWhile isWhitespace ++ before.dropWhile isWhitespace ++ run ++
            (after.rdropWhile isWhitespace ++ tail) := by rw [hbefore, htail]
      _ = before.takeWhile isWhitespace ++
            (before.dropWhile isWhitespace ++ run ++ after.rdropWhile isWhitespace) ++ tail := by
          simp only [List.append_assoc]
      _ = before.takeWhile isWhitespace ++ b ++ u ++ (a ++ tail) := by
          rw [hsplit]
          simp only [List.append_assoc]
  have hover := h _ _ _ hmessage hu
  simp only [List.length_append] at hover hlen ⊢
  omega

theorem MaximalRun.trimChars_eq {before run after : List Char} (hrun : MaximalRun before run after) :
    trimChars (before ++ run ++ after) =
      before.dropWhile isWhitespace ++ (run ++ after.rdropWhile isWhitespace) := by
  rw [trimChars_append hrun.ne_nil ⟨?_, ?_⟩, List.append_assoc]
  · exact isWhitespace_eq_false (hrun.alnum _ (List.head_mem _))
  · exact isWhitespace_eq_false (hrun.alnum _ (List.getLast_mem _))

/-- Runs that become the same token, with no UUID over them, are written in the same way. -/
theorem MaximalRun.masked {before run run' after : List Char} (hrun : MaximalRun before run after)
    (hrun' : MaximalRun before run' after) (hfree : NoUuidOver before run after)
    (hfree' : NoUuidOver before run' after) (hsame : normalizeToken run = normalizeToken run') :
    normalizeMessage (String.ofList (before ++ run ++ after)) =
      normalizeMessage (String.ofList (before ++ run' ++ after)) := by
  obtain ⟨out, space, hout, hout'⟩ := normalizeChars_append hrun.trimmed.before
    hfree.trimmed.blind hfree'.trimmed.blind false
  rw [normalizeMessage, normalizeMessage, String.toList_ofList, String.toList_ofList,
    hrun.trimChars_eq, hrun'.trimChars_eq, hout, hout',
    normalizeChars_token (hfree.trimmed.tokenAt hrun.trimmed),
    normalizeChars_token (hfree'.trimmed.tokenAt hrun'.trimmed), hsame]

theorem trimChars_uuid {before u after : List Char} (hu : isUuid u = true) :
    trimChars (before ++ u ++ after) =
      before.dropWhile isWhitespace ++ (u ++ after.rdropWhile isWhitespace) := by
  have hlen := isUuid_length hu
  have hne : u ≠ [] := List.ne_nil_of_length_pos (by omega)
  have hend : ∀ i (hi : i < u.length), ¬ DashAt i → isWhitespace u[i] = false := by
    intro i hi hdash
    refine isWhitespace_eq_false ?_
    by_contra hc
    exact hdash ((dashAt_of_isUuid hu (List.getElem?_eq_getElem hi)).mp
      (Bool.eq_false_of_not_eq_true hc))
  rw [trimChars_append hne ⟨?_, ?_⟩, List.append_assoc]
  · rw [List.head_eq_getElem]
    exact hend 0 _ (by decide)
  · rw [List.getLast_eq_getElem]
    exact hend _ _ (by rw [hlen]; decide)

theorem masked_uuid {before u u' : List Char} (after : List Char) (hend : EndsApart before)
    (hu : isUuid u = true) (hu' : isUuid u' = true) :
    normalizeMessage (String.ofList (before ++ u ++ after)) =
      normalizeMessage (String.ofList (before ++ u' ++ after)) := by
  obtain ⟨out, space, hout, hout'⟩ := normalizeChars_append hend.dropWhile
    (blind_uuid hend.dropWhile hu (after.rdropWhile isWhitespace))
    (blind_uuid hend.dropWhile hu' (after.rdropWhile isWhitespace)) false
  rw [normalizeMessage, normalizeMessage, String.toList_ofList, String.toList_ofList,
    trimChars_uuid hu, trimChars_uuid hu', hout, hout', normalizeChars_uuid hu,
    normalizeChars_uuid hu']

/--
A maximal run of digits may be replaced by any other, a mixed run of six characters or more by any
other such run, as long as no UUID overlaps the run before or after, and a UUID that stands apart by
any other: the normalized message stays the same.
-/
theorem normalizeMessage_masks (before after : List Char) :
    (∀ run run', MaximalRun before run after → MaximalRun before run' after →
      Digits run ∧ Digits run' ∨ Mixed run ∧ Mixed run' →
      NoUuidOver before run after → NoUuidOver before run' after →
      normalizeMessage (String.ofList (before ++ run ++ after)) =
        normalizeMessage (String.ofList (before ++ run' ++ after))) ∧
    (∀ u u', isUuid u = true → isUuid u' = true → EndsApart before → Apart after →
      normalizeMessage (String.ofList (before ++ u ++ after)) =
        normalizeMessage (String.ofList (before ++ u' ++ after))) := by
  refine ⟨fun run run' hrun hrun' hkind hfree hfree' => hrun.masked hrun' hfree hfree' ?_,
    fun u u' hu hu' hend _ => masked_uuid after hend hu hu'⟩
  rcases hkind with ⟨h, h'⟩ | ⟨h, h'⟩
  · rw [normalizeToken_of_digits hrun.ne_nil h, normalizeToken_of_digits hrun'.ne_nil h']
  · rw [normalizeToken_of_mixed h, normalizeToken_of_mixed h']

theorem normalizeMessage_masks_port :
    normalizeMessage (String.ofList ("port ".toList ++ "80".toList ++ ": refused".toList)) =
      normalizeMessage (String.ofList ("port ".toList ++ "8443".toList ++ ": refused".toList)) := by
  have hshort : ∀ run : List Char, run.length ≤ 4 →
      NoUuidOver "port ".toList run ": refused".toList := by
    intro run hrun b u a hsplit hu
    have hlen := congrArg List.length hsplit
    have hu := isUuid_length hu
    simp at hlen
    omega
  have hend : EndsApart "port ".toList := by
    intro a c h
    have hlast := congrArg List.getLast? h
    rw [List.getLast?_append_of_ne_nil _ (by simp)] at hlast
    cases hlast
    decide
  have hapart : Apart ": refused".toList := by
    intro c hc
    cases hc
    decide
  exact (normalizeMessage_masks "port ".toList ": refused".toList).1 "80".toList "8443".toList
    ⟨by decide, List.all_eq_true.mp rfl, hend, hapart⟩
    ⟨by decide, List.all_eq_true.mp rfl, hend, hapart⟩
    (.inl ⟨List.all_eq_true.mp rfl, List.all_eq_true.mp rfl⟩) (hshort _ (by decide))
    (hshort _ (by decide))

end Soika
