import Soika.Grouping.Fingerprint

/-! # The characters of the default material

Normalization cuts texts down and writes placeholders. Every character of the default
material comes from a text of the event, or from the few the program writes itself.
-/

namespace Soika

def ownCharacters : List Char := "type:frame:message:value:.@<int><uuid><id> \n".toList

def frameTexts (frame : Frame) : List String :=
  frame.function.toList ++ frame.module.toList ++ frame.filename.toList ++ frame.absPath.toList

def materialTexts (event : NormalizedEvent) : List String :=
  event.exceptionType.toList ++ event.message.toList ++ event.exceptionValue.toList ++
    (event.stacktrace.elim [] Stacktrace.frames).flatMap frameTexts

theorem cutAt_subset (pat s : List Char) : cutAt pat s ⊆ s := by
  unfold cutAt
  split
  · exact List.take_subset _ s
  · exact List.Subset.refl s

theorem stripPrefix_subset (pat s : List Char) : stripPrefix pat s ⊆ s := by
  unfold stripPrefix
  split
  · exact List.drop_subset _ s
  · exact List.Subset.refl s

theorem trimChars_subset (s : List Char) : trimChars s ⊆ s := by
  intro c hc
  rw [trimChars, List.mem_reverse] at hc
  have hc := List.mem_reverse.mp ((List.dropWhile_sublist _).subset hc)
  exact (List.dropWhile_sublist _).subset hc

theorem stripRustHashSuffix_subset (s : List Char) : stripRustHashSuffix s ⊆ s := by
  unfold stripRustHashSuffix
  split
  · exact List.Subset.refl s
  · dsimp only
    split
    · exact List.take_subset _ s
    · exact List.Subset.refl s

theorem getD_or_subset {s : List Char} {stripped stripped' : Option (List Char)}
    (h : ∀ t, stripped = some t → t ⊆ s) (h' : ∀ t, stripped' = some t → t ⊆ s) :
    (stripped.or stripped').getD s ⊆ s := by
  cases stripped with
  | some t => exact h t rfl
  | none =>
    cases stripped' with
    | some t => exact h' t rfl
    | none => exact List.Subset.refl s

theorem stripBundleHash_subset (path : List Char) : stripBundleHash path ⊆ path := by
  unfold stripBundleHash
  split
  rename_i dir file hparts
  have hparts : dir ⊆ path ∧ file ⊆ path := by
    split at hparts
    · obtain ⟨rfl, rfl⟩ := Prod.mk.inj hparts
      exact ⟨List.take_subset _ path, List.drop_subset _ path⟩
    · obtain ⟨rfl, rfl⟩ := Prod.mk.inj hparts
      exact ⟨List.nil_subset path, List.Subset.refl path⟩
  split
  · exact List.Subset.refl path
  · rename_i i hi
    have hcut : ∀ j, dir ++ (file.take i).take j ++ file.drop i ⊆ path := by
      intro j
      refine List.append_subset.mpr ⟨List.append_subset.mpr ⟨hparts.1, ?_⟩, ?_⟩
      · exact List.Subset.trans (List.take_subset j _)
          (List.Subset.trans (List.take_subset i file) hparts.2)
      · exact List.Subset.trans (List.drop_subset i file) hparts.2
    -- Whichever separator the hash stands behind, the stem is cut at it.
    have hstrip : ∀ (sep : Char) (stripped : List Char),
        (do
          let j ← rfindText [sep] (file.take i)
          if isHashLike ((file.take i).drop (j + 1)) then
            return dir ++ (file.take i).take j ++ file.drop i
          else none) = some stripped →
        stripped ⊆ path := by
      intro sep stripped h
      obtain ⟨j, -, h⟩ := Option.bind_eq_some_iff.mp h
      split at h
      · cases h
        exact hcut j
      · cases h
    exact getD_or_subset (hstrip '.') (hstrip '-')

theorem normalizeType_subset (ty : String) : (normalizeType ty).toList ⊆ ty.toList := by
  rw [normalizeType, trim, String.toList_ofList]
  exact trimChars_subset _

theorem normalizeFunction_subset (function : String) :
    (normalizeFunction function).toList ⊆ function.toList := by
  rw [normalizeFunction, String.toList_ofList]
  exact List.Subset.trans (trimChars_subset _) (List.Subset.trans (cutAt_subset _ _)
    (List.Subset.trans (stripRustHashSuffix_subset _) (trimChars_subset _)))

theorem normalizeModule_subset (module : String) :
    (normalizeModule module).toList ⊆ module.toList := by
  rw [normalizeModule, String.toList_ofList]
  exact List.Subset.trans (stripRustHashSuffix_subset _) (trimChars_subset _)

theorem normalizePath_subset (path : String) : (normalizePath path).toList ⊆ path.toList := by
  rw [normalizePath, String.toList_ofList]
  exact List.Subset.trans (stripBundleHash_subset _) (List.Subset.trans (stripPrefix_subset _ _)
    (List.Subset.trans (stripPrefix_subset _ _) (List.Subset.trans (stripPrefix_subset _ _)
      (List.Subset.trans (cutAt_subset _ _) (List.Subset.trans (cutAt_subset _ _)
        (trimChars_subset _))))))

theorem mem_normalized {field : Option String} {normalize : String → String} {text : String}
    {c : Char} (hsub : ∀ t, (normalize t).toList ⊆ t.toList)
    (h : (field.map normalize).filter (· ≠ "") = some text) (hc : c ∈ text.toList) :
    ∃ t, field = some t ∧ c ∈ t.toList := by
  obtain ⟨t, ht, rfl⟩ := Option.map_eq_some_iff.mp (Option.filter_eq_some_iff.mp h).1
  exact ⟨t, ht, hsub t hc⟩

theorem mem_frameSignature {frame : Frame} {signature : String} {c : Char}
    (hsig : frameSignature frame = some signature) (hc : c ∈ signature.toList) :
    c ∈ ownCharacters ∨ ∃ text ∈ frameTexts frame, c ∈ text.toList := by
  have hfunction : ∀ {text}, (frame.function.map normalizeFunction).filter (· ≠ "") = some text →
      c ∈ text.toList → ∃ t ∈ frameTexts frame, c ∈ t.toList := by
    intro text h hc
    obtain ⟨t, ht, hc⟩ := mem_normalized normalizeFunction_subset h hc
    exact ⟨t, by simp [frameTexts, ht], hc⟩
  have hmodule : ∀ {text}, (frame.module.map normalizeModule).filter (· ≠ "") = some text →
      c ∈ text.toList → ∃ t ∈ frameTexts frame, c ∈ t.toList := by
    intro text h hc
    obtain ⟨t, ht, hc⟩ := mem_normalized normalizeModule_subset h hc
    exact ⟨t, by simp [frameTexts, ht], hc⟩
  have hpath : ∀ {text},
      ((frame.filename.or frame.absPath).map normalizePath).filter (· ≠ "") = some text →
      c ∈ text.toList → ∃ t ∈ frameTexts frame, c ∈ t.toList := by
    intro text h hc
    obtain ⟨t, ht, hc⟩ := mem_normalized normalizePath_subset h hc
    refine ⟨t, ?_, hc⟩
    rcases Option.or_eq_some_iff.mp ht with ht | ⟨-, ht⟩ <;> simp [frameTexts, ht]
  unfold frameSignature at hsig
  dsimp only at hsig
  split at hsig
  · rename_i function hf
    cases hsig
    split at hc
    · rename_i module hm
      rw [String.toList_append, String.toList_append, List.mem_append, List.mem_append] at hc
      rcases hc with (hc | hc) | hc
      · exact .inr (hmodule hm hc)
      · exact .inl ((show ".".toList ⊆ ownCharacters by decide) hc)
      · exact .inr (hfunction hf hc)
    · exact .inr (hfunction hf hc)
  · split at hsig
    · rename_i module path hm hp
      cases hsig
      rw [String.toList_append, String.toList_append, List.mem_append, List.mem_append] at hc
      rcases hc with (hc | hc) | hc
      · exact .inr (hmodule hm hc)
      · exact .inl ((show "@".toList ⊆ ownCharacters by decide) hc)
      · exact .inr (hpath hp hc)
    · rename_i module hm hp
      cases hsig
      exact .inr (hmodule hm hc)
    · rename_i path hm hp
      cases hsig
      exact .inr (hpath hp hc)
    · cases hsig

theorem mem_collapseDigitRuns {c : Char} (prevDigit : Bool) (s : List Char)
    (hc : c ∈ collapseDigitRuns prevDigit s) : c ∈ ownCharacters ∨ c ∈ s := by
  have hint : placeholderInt ⊆ ownCharacters := by decide
  induction s generalizing prevDigit with
  | nil => cases hc
  | cons d s ih =>
    rw [collapseDigitRuns] at hc
    split at hc
    · rcases List.mem_append.mp hc with hc | hc
      · split at hc
        · cases hc
        · exact .inl (hint hc)
      · exact (ih true hc).imp_right (List.mem_cons_of_mem d)
    · rcases List.mem_cons.mp hc with rfl | hc
      · exact .inr List.mem_cons_self
      · exact (ih false hc).imp_right (List.mem_cons_of_mem d)

theorem mem_normalizeToken {c : Char} {token : List Char} (hc : c ∈ normalizeToken token) :
    c ∈ ownCharacters ∨ c ∈ token := by
  unfold normalizeToken at hc
  dsimp only at hc
  split at hc
  · exact .inl ((show placeholderInt ⊆ ownCharacters by decide) hc)
  · split at hc
    · exact .inl ((show placeholderId ⊆ ownCharacters by decide) hc)
    · exact mem_collapseDigitRuns false token hc

theorem mem_normalizeChars {c : Char} (skip : ℕ) (prevSpace : Bool) (s : List Char)
    (hc : c ∈ normalizeChars skip prevSpace s) : c ∈ ownCharacters ∨ c ∈ s := by
  induction s generalizing skip prevSpace with
  | nil => cases skip <;> cases hc
  | cons d s ih =>
    have later : ∀ {skip prevSpace}, c ∈ normalizeChars skip prevSpace s →
        c ∈ ownCharacters ∨ c ∈ d :: s :=
      fun h => (ih _ _ h).imp_right (List.mem_cons_of_mem d)
    cases skip with
    | succ skip =>
      rw [normalizeChars] at hc
      exact later hc
    | zero =>
      rw [normalizeChars] at hc
      split at hc
      · rcases List.mem_append.mp hc with hc | hc
        · split at hc
          · cases hc
          · exact .inl ((show [' '] ⊆ ownCharacters by decide) hc)
        · exact later hc
      · split at hc
        · rcases List.mem_append.mp hc with hc | hc
          · exact .inl ((show placeholderUuid ⊆ ownCharacters by decide) hc)
          · exact later hc
        · split at hc
          · rcases List.mem_append.mp hc with hc | hc
            · exact (mem_normalizeToken hc).imp_right ((List.takeWhile_sublist _).subset ·)
            · exact later hc
          · rcases List.mem_cons.mp hc with rfl | hc
            · exact .inr List.mem_cons_self
            · exact later hc

theorem mem_normalizeMessage {c : Char} {message : String}
    (hc : c ∈ (normalizeMessage message).toList) : c ∈ ownCharacters ∨ c ∈ message.toList := by
  rw [normalizeMessage, String.toList_ofList] at hc
  exact (mem_normalizeChars _ _ _ (trimChars_subset _ hc)).imp_right (trimChars_subset _ ·)

theorem mem_intercalate {words : List String} {glue : String} {c : Char}
    (hc : c ∈ (glue.intercalate words).toList) :
    c ∈ glue.toList ∨ ∃ word ∈ words, c ∈ word.toList := by
  rw [String.toList_intercalate] at hc
  induction words with
  | nil => cases hc
  | cons word words ih =>
    cases words with
    | nil => exact .inr ⟨word, List.mem_singleton_self word, by simpa using hc⟩
    | cons next words =>
      rw [List.map_cons, List.map_cons, List.intercalate_cons_cons, List.append_assoc,
        List.mem_append, List.mem_append] at hc
      rcases hc with hc | hc | hc
      · exact .inr ⟨word, List.mem_cons_self, hc⟩
      · exact .inl hc
      · obtain hc | ⟨later, hlater, hc⟩ := ih hc
        · exact .inl hc
        · exact .inr ⟨later, List.mem_cons_of_mem word hlater, hc⟩

section

variable {event : NormalizedEvent} {component : String} {c : Char}

theorem typeComponents_eq_nil :
    typeComponents event = [] ↔ event.exceptionType.filter (· ≠ "") = none := by
  unfold typeComponents
  cases event.exceptionType.filter (· ≠ "") <;> simp

theorem intercalate_cons_begins (sep s : String) (l : List String) :
    s.toList <+: (sep.intercalate (s :: l)).toList := by
  rw [String.toList_intercalate]
  cases l with
  | nil => simp
  | cons t l =>
    rw [List.map_cons, List.map_cons, List.intercalate_cons_cons, List.append_assoc]
    exact List.prefix_append _ _

theorem frameComponents_begins {s : String} (h : s ∈ frameComponents event) :
    "frame:".toList <+: s.toList := by
  unfold frameComponents at h
  split at h
  · simp only [groupingFrameSignatures, List.mem_map] at h
    obtain ⟨sig, -, rfl⟩ := h
    rw [String.toList_append]
    exact List.prefix_append _ _
  · exact absurd h List.not_mem_nil

theorem mem_typeComponents (h : component ∈ typeComponents event) (hc : c ∈ component.toList) :
    c ∈ ownCharacters ∨ ∃ text ∈ materialTexts event, c ∈ text.toList := by
  unfold typeComponents at h
  split at h
  · rename_i ty hty
    obtain rfl := List.mem_singleton.mp h
    rw [String.toList_append, List.mem_append] at hc
    rcases hc with hc | hc
    · exact .inl ((show "type:".toList ⊆ ownCharacters by decide) hc)
    · have hty := (Option.filter_eq_some_iff.mp hty).1
      exact .inr ⟨ty, by simp [materialTexts, hty], normalizeType_subset ty hc⟩
  · cases h

theorem mem_frameComponents (h : component ∈ frameComponents event) (hc : c ∈ component.toList) :
    c ∈ ownCharacters ∨ ∃ text ∈ materialTexts event, c ∈ text.toList := by
  unfold frameComponents at h
  split at h
  · rename_i st hst
    obtain ⟨signature, hmem, rfl⟩ := List.mem_map.mp h
    obtain ⟨frame, hframe, hsig⟩ := List.mem_filterMap.mp hmem
    have hframe : frame ∈ st.frames := by
      split at hframe
      · exact hframe
      · exact List.mem_of_mem_filter hframe
    rw [String.toList_append, List.mem_append] at hc
    rcases hc with hc | hc
    · exact .inl ((show "frame:".toList ⊆ ownCharacters by decide) hc)
    · refine (mem_frameSignature hsig hc).imp_right ?_
      rintro ⟨text, htext, hc⟩
      refine ⟨text, List.mem_append_right _ (List.mem_flatMap.mpr ⟨frame, ?_, htext⟩), hc⟩
      rw [hst]
      exact hframe
  · cases h

theorem mem_textComponents (h : component ∈ textComponents event) (hc : c ∈ component.toList) :
    c ∈ ownCharacters ∨ ∃ text ∈ materialTexts event, c ∈ text.toList := by
  unfold textComponents at h
  split at h
  · rename_i msg hmsg
    have hmsg := (Option.filter_eq_some_iff.mp hmsg).1
    obtain rfl := List.mem_singleton.mp h
    rw [String.toList_append, List.mem_append] at hc
    rcases hc with hc | hc
    · exact .inl ((show "message:".toList ⊆ ownCharacters by decide) hc)
    · exact (mem_normalizeMessage hc).imp_right fun hc => ⟨msg, by simp [materialTexts, hmsg], hc⟩
  · split at h
    · rename_i val hval
      have hval := (Option.filter_eq_some_iff.mp hval).1
      obtain rfl := List.mem_singleton.mp h
      rw [String.toList_append, List.mem_append] at hc
      rcases hc with hc | hc
      · exact .inl ((show "value:".toList ⊆ ownCharacters by decide) hc)
      · exact (mem_normalizeMessage hc).imp_right fun hc => ⟨val, by simp [materialTexts, hval], hc⟩
    · cases h

/-- The default material holds no character but those of the texts and of the program. -/
theorem mem_defaultMaterial (hc : c ∈ (defaultMaterial event).toList) :
    c ∈ ownCharacters ∨ ∃ text ∈ materialTexts event, c ∈ text.toList := by
  rcases mem_intercalate hc with hc | ⟨component, h, hc⟩
  · exact .inl ((show "\n".toList ⊆ ownCharacters by decide) hc)
  · split at h
    · exact mem_textComponents h hc
    · rcases List.mem_append.mp h with h | h
      · exact mem_typeComponents h hc
      · exact mem_frameComponents h hc

end

end Soika
