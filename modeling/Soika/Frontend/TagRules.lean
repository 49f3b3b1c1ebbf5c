import Mathlib.Data.List.Induction
import Soika.Api.MuteRules
import Soika.Frontend.EventContext

/-! # Rules made from the tags that are shown

A rule that a row of the viewer is turned into mutes by the pair that the server keeps of
it. It matches exactly when the payload spells that pair, which it does not do where the
viewer has trimmed a value, or has made a text of a key that is no scalar.
-/

namespace Soika.Frontend

section

variable (print : Printer)

def keyShown : TagEntry → Option String
  | .member key _ => some key
  | .pair key _ => stringOf print key
  | .record key _ => some ((str print (some key)).getD "")

def valueShown (entry : TagEntry) : String := (str print (some entry.value)).getD ""

def rowShown (entry : TagEntry) : Option KeyValue :=
  (keyShown print entry).map fun key => ⟨key, valueShown print entry⟩

theorem tagRow_eq (v : Value) :
    tagRow print v = match TagEntry.ofValue v with
      | some entry => (rowShown print entry).map some
      | none => some none := by
  have hfield (v : Option Value) : str print (some (v.getD .null)) = str print v := by
    cases v <;> rfl
  match v with
  | .object members =>
    simp only [tagRow, TagEntry.ofValue, rowShown, keyShown, valueShown, TagEntry.value, hfield,
      prop, Option.bind_some, Option.map_some]
  | .array [key, value] =>
    simp only [tagRow, TagEntry.ofValue, rowShown, keyShown, valueShown, Option.map_map]
    rfl
  | .array [] | .array [_] | .array (_ :: _ :: _ :: _) => rfl
  | .null | .bool _ | .number _ | .string _ => rfl

theorem mapM_tagRow (entries : List Value) :
    (entries.mapM (tagRow print)).map (fun rows => rows.filterMap id) =
      (entries.filterMap TagEntry.ofValue).mapM (rowShown print) := by
  induction entries with
  | nil => rfl
  | cons v entries ih =>
    have hrow := tagRow_eq print v
    rw [List.mapM_cons]
    cases hv : TagEntry.ofValue v with
    | none =>
      rw [hv] at hrow
      rw [hrow, List.filterMap_cons_none hv, ← ih]
      cases entries.mapM (tagRow print) <;> rfl
    | some entry =>
      rw [hv] at hrow
      simp only at hrow
      rw [hrow, List.filterMap_cons_some hv, List.mapM_cons, ← ih]
      cases rowShown print entry with
      | none => rfl
      | some row => cases entries.mapM (tagRow print) <;> rfl

/-- The rows shown are those of the entries, less some that have an empty text. -/
theorem extractTags_eq (payload : Value) : ∃ keep : KeyValue → Bool,
    (∀ row, row.key ≠ "" → row.value ≠ "" → keep row) ∧
      extractTags print (payload.get "tags") =
        ((tagEntries payload).mapM (rowShown print)).map (List.filter keep) := by
  rw [tagEntries]
  rcases payload.get "tags" with _ | (_ | _ | _ | _ | entries | members)
  case some.object =>
    refine ⟨fun t => t.value ≠ "", by simp_all, ?_⟩
    have hrows : (members.map fun m : String × Value => TagEntry.member m.1 m.2).mapM
        (rowShown print) =
          some (members.map fun m => ⟨m.1, (str print (some m.2)).getD ""⟩) := by
      induction members with
      | nil => rfl
      | cons m members ih =>
        rw [List.map_cons, List.mapM_cons, ih]
        rfl
    rw [hrows]
    rfl
  case some.array =>
    refine ⟨fun t => t.key ≠ "" ∧ t.value ≠ "", by simp_all, ?_⟩
    rw [← mapM_tagRow, extractTags]
    cases entries.mapM (tagRow print) <;> rfl
  all_goals exact ⟨fun _ => true, fun _ _ _ => rfl, rfl⟩

section

variable {α β : Type} {f : α → Option β} {l : List α}

theorem mapM_eq_none_iff : l.mapM f = none ↔ ∃ a ∈ l, f a = none := by
  induction l with
  | nil => simp
  | cons a l ih =>
    rw [List.mapM_cons]
    cases ha : f a with
    | none => simp [ha]
    | some b =>
      rw [List.exists_mem_cons_iff, or_iff_right (by simp [ha]), ← ih]
      cases l.mapM f <;> simp

theorem mem_mapM_iff {r : List β} (h : l.mapM f = some r) {b : β} :
    b ∈ r ↔ ∃ a ∈ l, f a = some b := by
  induction l generalizing r with
  | nil =>
    cases h
    simp
  | cons a l ih =>
    rw [List.mapM_cons, Option.bind_eq_bind] at h
    obtain ⟨c, ha, h⟩ := Option.bind_eq_some_iff.mp h
    obtain ⟨rest, hrest, h⟩ := Option.bind_eq_some_iff.mp h
    cases h
    simp [ih hrest, ha, eq_comm]

end

theorem trim_empty : Soika.trim "" = "" := by decide

theorem validateTags_row {key value : String} {cleaned : List TagMatch} :
    validateTags [⟨key, value⟩] = .ok cleaned ↔
      cleaned = [⟨Soika.trim key, Soika.trim value⟩] ∧ Soika.trim key ≠ "" ∧
        Soika.trim value ≠ "" := by
  rw [validateTags_eq_ok_iff]
  constructor
  · rintro ⟨-, rfl, hne, -⟩
    exact ⟨rfl, hne _ List.mem_cons_self⟩
  · rintro ⟨rfl, hne⟩
    exact ⟨List.cons_ne_nil _ _, rfl, by simpa using hne, by simp⟩

theorem matches_row_iff {floatText : UInt64 → String} {payload : Value} {key value : String}
    (hkey : key ≠ "") (hvalue : value ≠ "") :
    (TagMuteRule.mk [⟨key, value⟩]).matches (eventTags floatText payload) ↔
      Spelled floatText payload key value := by
  rw [TagMuteRule.matches_iff, ← get_eventTags_iff floatText hkey hvalue]
  simp

inductive Reads (floatText : UInt64 → String) : Value → String → Prop
  | string (s : String) : Reads floatText (.string s) s
  | number (n : Number) : Reads floatText (.number n) (n.text floatText)
  | bool (b : Bool) : Reads floatText (.bool b) (toString b)

/-- A scalar with no white space around it; a number that both languages print alike. -/
def Literal (floatText : UInt64 → String) : Value → Prop
  | .string s => Soika.trim s = s ∧ trim s = s
  | .number n => Soika.trim (numberText print n) = n.text floatText
  | .bool _ => True
  | _ => False

/-- A value of which the viewer shows nothing, or nothing but white space. -/
def Blank : Value → Prop
  | .string s => Soika.trim (trim s) = ""
  | .number n => Soika.trim (numberText print n) = ""
  | .bool _ => False
  | _ => True

/-- The viewer trims the keys of records only, and makes a text of every other key. -/
def LiteralKey (floatText : UInt64 → String) : TagEntry → Prop
  | .member s _ => Soika.trim s = s
  | .pair (.string s) _ => Soika.trim s = s
  | .pair key _ => Literal print floatText key
  | .record key _ => Literal print floatText key

def BlankKey : TagEntry → Prop
  | .member s _ => Soika.trim s = ""
  | .pair key _ => ∃ s, stringOf print key = some s ∧ Soika.trim s = ""
  | .record key _ => Blank print key

/-- The key of a pair is an object that hides `toString`, so nothing is shown. -/
def Throws (payload : Value) : Prop :=
  ∃ key value, .pair key value ∈ tagEntries payload ∧ stringOf print key = none

/-- Tags whose keys and values are literal where they are not blank, and repeat no key with another
value. -/
def LiteralTags (floatText : UInt64 → String) (payload : Value) : Prop :=
  ∀ before e after, tagEntries payload = before ++ e :: after →
    ¬ BlankKey print e → ¬ Blank print e.value →
      LiteralKey print floatText e ∧ Literal print floatText e.value ∧
        ∀ e' ∈ after, ∀ key value value', Reads floatText e.key key → Reads floatText e'.key key →
          Reads floatText e.value value → Reads floatText e'.value value' →
            value' = "" ∨ value' = value

/-- No entry has the key of another one, without the white space around it. -/
def OwnKeys (floatText : UInt64 → String) (payload : Value) : Prop :=
  ∀ before e after, tagEntries payload = before ++ e :: after → ∀ e' ∈ before ++ after,
    ∀ key, keyShown print e = some key → ¬ Reads floatText e'.key (Soika.trim key)

section Texts

variable {floatText : UInt64 → String}

theorem Reads.eq {v : Value} {s : String} (h : Reads floatText v s) : scalarStr floatText v = s := by
  cases h <;> rfl

theorem reads_iff {v : Value} {s : String} (hs : s ≠ "") :
    Reads floatText v s ↔ scalarStr floatText v = s := by
  constructor
  · exact Reads.eq
  · rintro rfl
    cases v with
    | string s => exact .string s
    | number n => exact .number n
    | bool b => exact .bool b
    | _ => exact absurd rfl hs

theorem trim_toString (b : Bool) : Soika.trim (toString b) = toString b := by
  cases b <;> decide

theorem trimmed_sublist (p : Char → Bool) (s : List Char) :
    ((s.dropWhile p).reverse.dropWhile p).reverse.Sublist s := by
  have hright := (List.dropWhile_sublist p (l := (s.dropWhile p).reverse)).reverse
  rw [List.reverse_reverse] at hright
  exact hright.trans (List.dropWhile_sublist p)

theorem rustTrim_sublist (s : String) : (Soika.trim s).toList.Sublist s.toList := by
  rw [Soika.trim, String.toList_ofList]
  exact trimmed_sublist Soika.isWhitespace s.toList

theorem trim_sublist (s : String) : (trim s).toList.Sublist s.toList := by
  rw [trim, String.toList_ofList]
  exact trimmed_sublist isWhitespace s.toList

/-- What the two trims leave alone has no white space around it for either of them. -/
theorem trim_trim_eq_iff {s : String} :
    Soika.trim (trim s) = s ↔ Soika.trim s = s ∧ trim s = s := by
  constructor
  · intro h
    have hsub := rustTrim_sublist (trim s)
    rw [h] at hsub
    have hsame : trim s = s := String.toList_injective ((trim_sublist s).antisymm hsub)
    rw [hsame] at h
    exact ⟨h, hsame⟩
  · rintro ⟨hrust, hjs⟩
    rw [hjs, hrust]

variable {print}

theorem blank_iff {v : Value} : Blank print v ↔ Soika.trim ((str print (some v)).getD "") = "" := by
  cases v with
  | string s =>
    simp only [Blank, str, trimmed]
    split
    · rename_i hs
      rw [hs, Option.getD_none]
    · rfl
  | number n => rfl
  | bool b =>
    refine iff_of_false id ?_
    change Soika.trim (toString b) ≠ ""
    cases b <;> decide
  | _ => exact iff_of_true trivial trim_empty

theorem literal_iff {v : Value} (hv : ¬ Blank print v) : Literal print floatText v ↔
    Soika.trim ((str print (some v)).getD "") = scalarStr floatText v := by
  cases v with
  | string s =>
    simp only [Literal, ← trim_trim_eq_iff, str, trimmed, scalarStr]
    split
    · rename_i hs
      rw [hs, Option.getD_none]
    · rfl
  | number n => rfl
  | bool b => exact iff_of_true trivial (trim_toString b)
  | _ => exact absurd trivial hv

theorem blankKey_iff {e : TagEntry} {key : String} (hkey : keyShown print e = some key) :
    BlankKey print e ↔ Soika.trim key = "" := by
  cases e with
  | member s value =>
    cases hkey
    rfl
  | pair raw value =>
    constructor
    · rintro ⟨s, hs, hblank⟩
      cases hkey.symm.trans hs
      exact hblank
    · exact fun hblank => ⟨key, hkey, hblank⟩
  | record raw value =>
    cases hkey
    exact blank_iff

theorem literalKey_iff {e : TagEntry} {key : String} (hkey : keyShown print e = some key)
    (hblank : Soika.trim key ≠ "") :
    LiteralKey print floatText e ↔ Soika.trim key = scalarStr floatText e.key := by
  cases e with
  | member s value =>
    cases hkey
    rfl
  | record raw value =>
    cases hkey
    exact literal_iff fun h => hblank (blank_iff.mp h)
  | pair raw value =>
    cases raw with
    | string s =>
      cases hkey
      rfl
    | number n =>
      cases hkey
      rfl
    | bool b =>
      cases hkey
      exact iff_of_true trivial (trim_toString b)
    | _ => exact iff_of_false id hblank

end Texts

/-- A rule made from a row that is shown matches the event of the payload. -/
def RowsMatch (floatText : UInt64 → String) (payload : Value) : Prop :=
  ∀ rows, extractTags print (payload.get "tags") = some rows → ∀ row ∈ rows, ∀ cleaned,
    validateTags [⟨row.key, row.value⟩] = .ok cleaned →
      (TagMuteRule.mk cleaned).matches (eventTags floatText payload)

theorem throws_iff {payload : Value} :
    Throws print payload ↔ ∃ e ∈ tagEntries payload, keyShown print e = none := by
  constructor
  · rintro ⟨key, value, hmem, hnone⟩
    exact ⟨_, hmem, hnone⟩
  · rintro ⟨e, hmem, hnone⟩
    cases e with
    | pair key value => exact ⟨key, value, hmem, hnone⟩
    | _ => cases hnone

theorem rowsMatch_iff {floatText : UInt64 → String} {payload : Value} :
    RowsMatch print floatText payload ↔ Throws print payload ∨
      ∀ e ∈ tagEntries payload, ∀ key, keyShown print e = some key → Soika.trim key ≠ "" →
        Soika.trim (valueShown print e) ≠ "" →
          Spelled floatText payload (Soika.trim key) (Soika.trim (valueShown print e)) := by
  obtain ⟨keep, hkeep, hrows⟩ := extractTags_eq print payload
  rw [RowsMatch, hrows, throws_iff]
  constructor
  · intro h
    cases hmap : (tagEntries payload).mapM (rowShown print) with
    | none =>
      obtain ⟨e, he, hnone⟩ := mapM_eq_none_iff.mp hmap
      exact Or.inl ⟨e, he, Option.map_eq_none_iff.mp hnone⟩
    | some rows =>
      refine Or.inr fun e he key hkey hk hv => ?_
      have hshown : (⟨key, valueShown print e⟩ : KeyValue) ∈ rows := by
        refine (mem_mapM_iff hmap).mpr ⟨e, he, ?_⟩
        rw [rowShown, hkey]
        rfl
      have hne {s : String} (hs : Soika.trim s ≠ "") : s ≠ "" := by
        rintro rfl
        exact hs trim_empty
      have hmem := List.mem_filter.mpr ⟨hshown, hkeep _ (hne hk) (hne hv)⟩
      rw [hmap] at h
      rw [← matches_row_iff hk hv]
      exact h _ rfl _ hmem _ (validateTags_row.mpr ⟨rfl, hk, hv⟩)
  · intro h rows hrows row hrow cleaned hok
    obtain ⟨shown, hmap, rfl⟩ := Option.map_eq_some_iff.mp hrows
    obtain ⟨rfl, hk, hv⟩ := validateTags_row.mp hok
    obtain ⟨e, he, hshown⟩ := (mem_mapM_iff hmap).mp (List.mem_filter.mp hrow).1
    rw [matches_row_iff hk hv]
    rcases h with ⟨thrown, hthrown, hnone⟩ | h
    · have : (tagEntries payload).mapM (rowShown print) = none :=
        mapM_eq_none_iff.mpr ⟨thrown, hthrown, by rw [rowShown, hnone]; rfl⟩
      rw [this] at hmap
      cases hmap
    · obtain ⟨key, hkey, rfl⟩ := Option.map_eq_some_iff.mp hshown
      exact h e he key hkey hk hv

section Literal

variable {print} {floatText : UInt64 → String} {payload : Value}

/-- Among entries that give a key no other value, the last one that gives it the value. -/
theorem spelled_of_repeats {before after : List TagEntry} {e : TagEntry} {key value : String}
    (hsplit : tagEntries payload = before ++ e :: after) (hkey : scalarStr floatText e.key = key)
    (hvalue : scalarStr floatText e.value = value)
    (hrepeats : ∀ e' ∈ after, scalarStr floatText e'.key = key →
      scalarStr floatText e'.value = "" ∨ scalarStr floatText e'.value = value) :
    Spelled floatText payload key value := by
  have hlast : ∃ front e' back, before ++ e :: after = front ++ e' :: back ∧
      scalarStr floatText e'.key = key ∧ scalarStr floatText e'.value = value ∧
      ∀ e'' ∈ back, scalarStr floatText e''.key = key → scalarStr floatText e''.value = "" := by
    clear hsplit
    induction after using List.reverseRecOn with
    | nil => exact ⟨before, e, [], rfl, hkey, hvalue, by simp⟩
    | append_singleton after x ih =>
      by_cases hx : scalarStr floatText x.key = key ∧ scalarStr floatText x.value = value
      · exact ⟨before ++ e :: after, x, [], by simp, hx.1, hx.2, by simp⟩
      · obtain ⟨front, e', back, hsame, hk, hv, hback⟩ :=
          ih fun e' he' => hrepeats e' (List.mem_append_left _ he')
        refine ⟨front, e', back ++ [x], by rw [← List.cons_append, ← List.append_assoc, hsame]; simp,
          hk, hv, fun e'' he'' hkey'' => ?_⟩
        rcases List.mem_append.mp he'' with he'' | he''
        · exact hback e'' he'' hkey''
        · obtain rfl := List.mem_singleton.mp he''
          rcases hrepeats e'' (by simp) hkey'' with hempty | hsame
          · exact hempty
          · exact absurd ⟨hkey'', hsame⟩ hx
  obtain ⟨front, e', back, hsame, hrest⟩ := hlast
  exact ⟨front, e', back, hsplit.trans hsame, hrest⟩

theorem LiteralTags.spelled (h : LiteralTags print floatText payload) {e : TagEntry}
    (he : e ∈ tagEntries payload) {key : String} (hkey : keyShown print e = some key)
    (hk : Soika.trim key ≠ "") (hv : Soika.trim (valueShown print e) ≠ "") :
    Spelled floatText payload (Soika.trim key) (Soika.trim (valueShown print e)) := by
  obtain ⟨before, after, hsplit⟩ := List.append_of_mem he
  have hvisible : ¬ Blank print e.value := fun hblank => hv (blank_iff.mp hblank)
  obtain ⟨hliteral, hliteral', hrepeats⟩ :=
    h before e after hsplit (fun hblank => hk ((blankKey_iff hkey).mp hblank)) hvisible
  have hkeyText := (literalKey_iff hkey hk).mp hliteral
  have hvalueText : Soika.trim (valueShown print e) = scalarStr floatText e.value :=
    (literal_iff hvisible).mp hliteral'
  rw [hkeyText] at hk ⊢
  rw [hvalueText] at hv ⊢
  refine spelled_of_repeats hsplit rfl rfl fun e' he' hsame => ?_
  by_cases hempty : scalarStr floatText e'.value = ""
  · exact .inl hempty
  · exact hrepeats e' he' _ _ _ ((reads_iff hk).mpr rfl) ((reads_iff hk).mpr hsame)
      ((reads_iff hv).mpr rfl) ((reads_iff hempty).mpr rfl)

/-- Where no entry has the key of another one, only literal tags are spelled as they are shown. -/
theorem OwnKeys.literal (hown : OwnKeys print floatText payload)
    (h : ∀ e ∈ tagEntries payload, ∀ key, keyShown print e = some key → Soika.trim key ≠ "" →
      Soika.trim (valueShown print e) ≠ "" →
        Spelled floatText payload (Soika.trim key) (Soika.trim (valueShown print e)))
    (hshown : ∀ e ∈ tagEntries payload, keyShown print e ≠ none) :
    LiteralTags print floatText payload := by
  intro before e after hsplit hkeyVisible hvisible
  have he : e ∈ tagEntries payload := by
    rw [hsplit]
    exact List.mem_append_right _ List.mem_cons_self
  obtain ⟨key, hkey⟩ := Option.ne_none_iff_exists'.mp (hshown e he)
  have hk : Soika.trim key ≠ "" := fun hblank => hkeyVisible ((blankKey_iff hkey).mpr hblank)
  have hv : Soika.trim (valueShown print e) ≠ "" := fun hblank => hvisible (blank_iff.mpr hblank)
  obtain ⟨front, twin, back, hsame, htwin, hvalue, -⟩ := h e he key hkey hk hv
  have hother : ∀ e' ∈ before ++ after, scalarStr floatText e'.key ≠ Soika.trim key :=
    fun e' he' hsame => hown before e after hsplit e' he' key hkey ((reads_iff hk).mpr hsame)
  have hself : twin = e := by
    have hmem : twin ∈ before ++ e :: after := by
      rw [← hsplit, hsame]
      exact List.mem_append_right _ List.mem_cons_self
    by_contra hne
    refine hother twin ?_ htwin
    simpa [hne] using hmem
  subst hself
  refine ⟨(literalKey_iff hkey hk).mpr htwin.symm, (literal_iff hvisible).mpr hvalue.symm, ?_⟩
  intro e' he' key' _ _ hreads hreads' _ _
  refine absurd ?_ (hother e' (List.mem_append_right _ he'))
  rw [hreads'.eq, ← hreads.eq, htwin]

end Literal

/-- The rules made from the rows that are shown match, where the tags of the payload are literal; and
only there, where no entry has the key of another one. -/
theorem tag_rules_match (floatText : UInt64 → String) (payload : Value) :
    (Throws print payload ∨ LiteralTags print floatText payload →
      RowsMatch print floatText payload) ∧
    (OwnKeys print floatText payload → RowsMatch print floatText payload →
      Throws print payload ∨ LiteralTags print floatText payload) := by
  simp only [rowsMatch_iff]
  constructor
  · rintro (hthrows | hliteral)
    · exact .inl hthrows
    · exact .inr fun e he key hkey hk hv => hliteral.spelled he hkey hk hv
  · rintro hown (hthrows | hspelled)
    · exact .inl hthrows
    · by_cases hthrows : Throws print payload
      · exact .inl hthrows
      · refine .inr (hown.literal hspelled fun e he hnone => hthrows ?_)
        exact (throws_iff print).mpr ⟨e, he, hnone⟩

end

def paddedTag : Value := .object [("tags", .object [("environment", .string " staging ")])]

/-- Stands in for both printers of numbers in examples: it shows the sign or the bits. -/
def Printer.plain : Printer := ⟨fun n => toString n.sign, fun bits => toString bits.toNat⟩

theorem paddedTag_missed : ∃ rows, ∃ row ∈ rows, ∃ cleaned,
    extractTags .plain (paddedTag.get "tags") = some rows ∧
      validateTags [⟨row.key, row.value⟩] = .ok cleaned ∧
      (TagMuteRule.mk cleaned).matches (eventTags Printer.plain.floatText paddedTag) = false := by
  let row : KeyValue := ⟨"environment", "staging"⟩
  refine ⟨[row], row, List.mem_cons_self, [⟨"environment", "staging"⟩], ?_, ?_, ?_⟩
  · have htrim : trimmed " staging " = some "staging" := by decide
    change some (List.filter _ [KeyValue.mk "environment" ((trimmed " staging ").getD "")]) = _
    rw [htrim]
    rfl
  · exact validateTags_row.mpr ⟨by decide, by decide, by decide⟩
  · rfl

end Soika.Frontend
