import Soika.ConfigSync.Reading

/-! # Sections that the file does not manage

Two documents that differ only inside sections that the file does not manage are read
alike, whatever stands in these sections. When the environment manages the service, all
that is read of `notifications` is its project labels, as long as its `alertmanager` is
a mapping.
-/

namespace Soika.ConfigSync

open Yaml

/-- The UI manages the section; of `notifications`, that neither the file nor the environment of
the service does. -/
def Ignored (settings : ManagementSettings) (name : String) : Prop :=
  name = "projects" ∧ settings.projectSource = .ui ∨ name = "teams" ∧ settings.teamSource = .ui ∨
    name = "notifications" ∧ settings.serviceSource ≠ .env ∧ settings.notificationSource ≠ .yaml

/-- `alertmanager.project_labels` -/
def projectLabels (notifications : List (Yaml × Yaml)) : Option Yaml :=
  (find "alertmanager" notifications).bind fun alertmanager =>
    alertmanager.asMapping.bind (find "project_labels")

/-- The value of `alertmanager` is a mapping, when there is one. No tag is put on it or on the keys
by which the labels are found. -/
def Shaped (notifications : List (Yaml × Yaml)) : Prop :=
  ∀ e ∈ notifications, e.1.asStr = some "alertmanager" → e.1 = .string "alertmanager" ∧
    (e.2 = .null ∨ ∃ alertmanager, e.2 = .mapping alertmanager ∧
      ∀ f ∈ alertmanager, f.1.asStr = some "project_labels" → f.1 = .string "project_labels")

/-- Two entries under one key whose values are the same, or in a section that is ignored, or those
of `notifications` with the same project labels. -/
def EntryAlike (settings : ManagementSettings) (N : List (Yaml × Yaml) → Prop)
    (e e' : Yaml × Yaml) : Prop :=
  e.1 = e'.1 ∧ (e.2 = e'.2 ∨ (∃ name, Ignored settings name ∧ e.1 = .string name) ∨
    settings.serviceSource = .env ∧ e.1 = .string "notifications" ∧
      ∃ n n', e.2 = .mapping n ∧ e'.2 = .mapping n' ∧ N n ∧ N n' ∧
        projectLabels n = projectLabels n')

/-- Documents that differ only inside sections that the file does not manage. -/
def Alike (settings : ManagementSettings) (N : List (Yaml × Yaml) → Prop) (d d' : Yaml) : Prop :=
  d = d' ∨ ∃ es es', d = .mapping es ∧ d' = .mapping es' ∧
    List.Forall₂ (EntryAlike settings N) es es'

/-- What the program relies on where it writes a tree and reads it back. -/
structure YamlCodec.Lawful (codec : YamlCodec) : Prop where
  /-- A text that was written is read back. -/
  reread : ∀ v, codec.reread v = .ok v ∨
    codec.reread v = .error (.validation "invalid configuration YAML")
  /-- Empty values can be written, and a mapping when its keys and values can. -/
  null : codec.reread .null = .ok .null
  mapping : ∃ keys : Set Yaml, (∀ s, .string s ∈ keys) ∧ ∀ es,
    codec.reread (.mapping es) = .ok (.mapping es) ↔
      ∀ e ∈ es, e.1 ∈ keys ∧ codec.reread e.2 = .ok e.2

/-- A value of `notifications` of which nothing is read. -/
inductive Hollow : Yaml → Prop
  | empty : Hollow (.mapping [])
  | null : Hollow (.mapping [(.string "alertmanager", .null)])
  | mapping : Hollow (.mapping [(.string "alertmanager", .mapping [])])

theorem keepProjectLabels_cases {n : List (Yaml × Yaml)} (hkeyed : Keyed (.mapping n))
    (hshaped : Shaped n) :
    (∃ labels, projectLabels n = some labels ∧ keepProjectLabels n =
      [(.string "alertmanager", .mapping [(.string "project_labels", labels)])]) ∨
    projectLabels n = none ∧ Hollow (.mapping (keepProjectLabels n)) := by
  have hretain := retain_eq (fun e he h => (hshaped e he h).1) hkeyed.1
  unfold keepProjectLabels projectLabels
  cases hfind : find "alertmanager" n with
  | none =>
    rw [hretain, hfind]
    exact .inr ⟨rfl, .empty⟩
  | some v =>
    rw [hretain, hfind]
    have hmem : ((.string "alertmanager", v) : Yaml × Yaml) ∈ n := by
      have hmem : (.string "alertmanager", v) ∈ retain "alertmanager" n := by
        rw [hretain, hfind]
        exact List.mem_singleton.mpr rfl
      exact List.mem_of_mem_filter hmem
    obtain ⟨-, rfl | ⟨alertmanager, rfl, hplain⟩⟩ := hshaped _ hmem rfl
    · exact .inr ⟨rfl, .null⟩
    · have hinner := retain_eq hplain (hkeyed.2.mem hmem).1
      change (∃ labels, find "project_labels" alertmanager = some labels ∧
        [(_, Yaml.mapping (retain "project_labels" alertmanager))] = _) ∨
          find "project_labels" alertmanager = none ∧
            Hollow (.mapping [(_, .mapping (retain "project_labels" alertmanager))])
      rw [hinner]
      cases find "project_labels" alertmanager with
      | none => exact .inr ⟨rfl, .mapping⟩
      | some labels => exact .inl ⟨labels, rfl, rfl⟩

theorem Hollow.keep {v : Yaml} (h : Hollow v) : Hollow (v.mapMapping keepProjectLabels) := by
  cases h with
  | empty => exact .empty
  | null => exact .null
  | mapping => exact .mapping

theorem Hollow.visit {env : String → Option String} {v : Yaml} (h : Hollow v) :
    visit env v = .ok v := by
  cases h <;> rfl

theorem Hollow.envNotifications {codec : YamlCodec} {v : Yaml} (h : Hollow v) :
    envNotifications codec v = some .empty := by
  cases h <;> rfl

section

variable {P : Platform} {codec : YamlCodec} {env : String → Option String}
  {settings : ManagementSettings} {es es' : List (Yaml × Yaml)} {e e' : Yaml × Yaml} {v v' : Yaml}

/-- Two entries that are the same, but for a value of `notifications` of which nothing is read. -/
def EntrySame (settings : ManagementSettings) (e e' : Yaml × Yaml) : Prop :=
  e.1 = e'.1 ∧ (e.2 = e'.2 ∨ settings.serviceSource = .env ∧ e.1 = .string "notifications" ∧
    Hollow e.2 ∧ Hollow e'.2)

inductive Same (settings : ManagementSettings) : Yaml → Yaml → Prop
  | refl (v : Yaml) : Same settings v v
  | mapping {es es' : List (Yaml × Yaml)} (hkeys : (es.map Prod.fst).Nodup)
      (hes : List.Forall₂ (EntrySame settings) es es') : Same settings (.mapping es) (.mapping es')

theorem EntrySame.refl (e : Yaml × Yaml) : EntrySame settings e e := ⟨rfl, .inl rfl⟩

theorem EntrySame.eq (h : EntrySame settings e e')
    (hne : settings.serviceSource = .env → e.1 ≠ .string "notifications") : e = e' := by
  obtain ⟨hkey, hvalue | ⟨henv, hname, -⟩⟩ := h
  · exact Prod.ext hkey hvalue
  · exact absurd hname (hne henv)

def removeIf (c : Prop) [Decidable c] (name : String) (es : List (Yaml × Yaml)) :
    List (Yaml × Yaml) :=
  if c then swapRemove name es else es

section

variable {c : Prop} [Decidable c] {name : String}

theorem nodup_removeIf (h : (es.map Prod.fst).Nodup) :
    ((removeIf c name es).map Prod.fst).Nodup := by
  unfold removeIf
  split_ifs
  · exact nodup_swapRemove h
  · exact h

theorem mem_of_mem_removeIf (h : e ∈ removeIf c name es) : e ∈ es := by
  unfold removeIf at h
  split_ifs at h
  · exact mem_of_mem_swapRemove h
  · exact h

theorem ne_of_mem_removeIf (hc : c) (hes : (es.map Prod.fst).Nodup)
    (h : e ∈ removeIf c name es) : e.1 ≠ .string name := by
  rw [removeIf, if_pos hc] at h
  exact ne_of_mem_swapRemove hes h

theorem forall₂_removeIf {R : Yaml × Yaml → Yaml × Yaml → Prop}
    (hR : ∀ e e', R e e' → e.1 = e'.1) (h : List.Forall₂ R es es') :
    List.Forall₂ R (removeIf c name es) (removeIf c name es') := by
  unfold removeIf
  split_ifs
  · exact forall₂_swapRemove hR h
  · exact h

end

/-- What is done to `notifications`: labels are kept, or the section is removed. -/
def ownNotifications (settings : ManagementSettings) (es : List (Yaml × Yaml)) :
    List (Yaml × Yaml) :=
  if settings.serviceSource = .env then modifyAt "notifications" (mapMapping keepProjectLabels) es
  else removeIf (settings.notificationSource ≠ .yaml) "notifications" es

theorem discardUiSections_mapping :
    discardUiSections settings (.mapping es) =
      .mapping (removeIf (settings.teamSource = .ui) "teams"
        (removeIf (settings.projectSource = .ui) "projects" (ownNotifications settings es))) :=
  rfl

theorem keys_modifyAt {name : String} {f : Yaml → Yaml} :
    (modifyAt name f es).map Prod.fst = es.map Prod.fst := by
  unfold modifyAt
  rw [List.map_map]
  apply List.map_congr_left
  intro e _
  dsimp only [Function.comp]
  split_ifs <;> rfl

theorem nodup_ownNotifications (h : (es.map Prod.fst).Nodup) :
    ((ownNotifications settings es).map Prod.fst).Nodup := by
  unfold ownNotifications
  split_ifs
  · rwa [keys_modifyAt]
  · exact nodup_removeIf h

def EntryLoose (settings : ManagementSettings) (e e' : Yaml × Yaml) : Prop :=
  EntrySame settings e e' ∨ e.1 = e'.1 ∧ ∃ name, Ignored settings name ∧ e.1 = .string name

theorem EntryLoose.key (e e' : Yaml × Yaml) (h : EntryLoose settings e e') : e.1 = e'.1 := by
  rcases h with ⟨hkey, -⟩ | ⟨hkey, -⟩
  · exact hkey
  · exact hkey

theorem EntryAlike.kept (henv : settings.serviceSource = .env) (he : Keyed e.2) (he' : Keyed e'.2)
    (h : EntryAlike settings Shaped e e') :
    EntryLoose settings
      (if e.1.isText "notifications" then (e.1, e.2.mapMapping keepProjectLabels) else e)
      (if e'.1.isText "notifications" then (e'.1, e'.2.mapMapping keepProjectLabels) else e') := by
  obtain ⟨key, v⟩ := e
  obtain ⟨key', v'⟩ := e'
  obtain ⟨hkey, h⟩ := h
  obtain rfl : key = key' := hkey
  rcases h with hvalue | ⟨name, hname, hkey⟩ | ⟨-, hkey, n, n', hn, hn', hshaped, hshaped', hlabels⟩
  · obtain rfl : v = v' := hvalue
    exact .inl (.refl _)
  · refine .inr ⟨?_, name, hname, ?_⟩
    · split_ifs <;> rfl
    · split_ifs <;> exact hkey
  · obtain rfl : key = .string "notifications" := hkey
    obtain rfl : v = .mapping n := hn
    obtain rfl : v' = .mapping n' := hn'
    refine .inl ⟨rfl, ?_⟩
    change Yaml.mapping (keepProjectLabels n) = .mapping (keepProjectLabels n') ∨ _ ∧ _ ∧
      Hollow (.mapping (keepProjectLabels n)) ∧ Hollow (.mapping (keepProjectLabels n'))
    rcases keepProjectLabels_cases he hshaped with ⟨labels, hsome, hkeep⟩ | ⟨hnone, hhollow⟩
    · rcases keepProjectLabels_cases he' hshaped' with ⟨labels', hsome', hkeep'⟩ | ⟨hnone', -⟩
      · rw [← hlabels, hsome] at hsome'
        obtain rfl := Option.some.inj hsome'
        exact .inl (by rw [hkeep, hkeep'])
      · rw [← hlabels, hsome] at hnone'
        cases hnone'
    · rcases keepProjectLabels_cases he' hshaped' with ⟨labels', hsome', -⟩ | ⟨-, hhollow'⟩
      · rw [← hlabels, hnone] at hsome'
        cases hsome'
      · exact .inr ⟨henv, rfl, hhollow, hhollow'⟩

theorem forall₂_ownNotifications (hes : KeyedValues es) (hes' : KeyedValues es')
    (h : List.Forall₂ (EntryAlike settings Shaped) es es') :
    List.Forall₂ (EntryLoose settings) (ownNotifications settings es)
      (ownNotifications settings es') := by
  unfold ownNotifications
  split_ifs with henv
  · induction h with
    | nil => exact .nil
    | cons he hes ih =>
      obtain ⟨-, hv, hes⟩ := hes
      obtain ⟨-, hv', hes'⟩ := hes'
      exact .cons (he.kept henv hv hv') (ih hes hes')
  · apply forall₂_removeIf EntryLoose.key
    apply h.imp
    rintro e e' ⟨hkey, hvalue | hignored | ⟨hservice, -⟩⟩
    · exact .inl ⟨hkey, .inl hvalue⟩
    · exact .inr ⟨hkey, hignored⟩
    · exact absurd hservice henv

def Managed (settings : ManagementSettings) (e : Yaml × Yaml) : Prop :=
  ∀ name, Ignored settings name → e.1 ≠ .string name

theorem managed_of_mem (hes : (es.map Prod.fst).Nodup)
    (h : e ∈ removeIf (settings.teamSource = .ui) "teams"
      (removeIf (settings.projectSource = .ui) "projects" (ownNotifications settings es))) :
    Managed settings e := by
  have hown : ((ownNotifications settings es).map Prod.fst).Nodup := nodup_ownNotifications hes
  rintro name (⟨rfl, hui⟩ | ⟨rfl, hui⟩ | ⟨rfl, henv, hyaml⟩)
  · exact ne_of_mem_removeIf hui hown (mem_of_mem_removeIf h)
  · exact ne_of_mem_removeIf hui (nodup_removeIf hown) h
  · have hmem := mem_of_mem_removeIf (mem_of_mem_removeIf h)
    rw [ownNotifications, if_neg henv] at hmem
    exact ne_of_mem_removeIf hyaml hes hmem

theorem Same.discard_alike (hv : Keyed v) (hv' : Keyed v') (h : Alike settings Shaped v v') :
    Same settings (discardUiSections settings v) (discardUiSections settings v') := by
  rcases h with rfl | ⟨es, es', rfl, rfl, hes⟩
  · exact .refl _
  rw [discardUiSections_mapping, discardUiSections_mapping]
  apply Same.mapping
  · exact nodup_removeIf (nodup_removeIf (nodup_ownNotifications hv.1))
  have hown := forall₂_ownNotifications hv.2 hv'.2 hes
  refine List.Forall₂.imp ?_ ((List.forall₂_and_left _ _).mpr
    ⟨fun _ he => managed_of_mem hv.1 he,
      forall₂_removeIf EntryLoose.key (forall₂_removeIf EntryLoose.key hown)⟩)
  rintro e e' ⟨hmanaged, hsame | ⟨-, name, hname, hkey⟩⟩
  · exact hsame
  · exact absurd hkey (hmanaged name hname)

theorem Same.discard (h : Same settings v v') :
    Same settings (discardUiSections settings v) (discardUiSections settings v') := by
  cases h with
  | refl v => exact .refl _
  | mapping hkeys hes =>
    rw [discardUiSections_mapping, discardUiSections_mapping]
    have hkey (e e' : Yaml × Yaml) (h : EntrySame settings e e') : e.1 = e'.1 := h.1
    apply Same.mapping
    · exact nodup_removeIf (nodup_removeIf (nodup_ownNotifications hkeys))
    apply forall₂_removeIf hkey
    apply forall₂_removeIf hkey
    unfold ownNotifications
    split_ifs
    · apply List.forall₂_map_left_iff.mpr
      apply List.forall₂_map_right_iff.mpr
      apply hes.imp
      rintro ⟨key, v⟩ ⟨key', v'⟩ ⟨hkey, hvalue⟩
      obtain rfl : key = key' := hkey
      rcases hvalue with hvalue | ⟨henv, hname, hhollow, hhollow'⟩
      · obtain rfl : v = v' := hvalue
        exact .refl _
      · obtain rfl : key = .string "notifications" := hname
        exact ⟨rfl, .inr ⟨henv, rfl, hhollow.keep, hhollow'.keep⟩⟩
    · exact forall₂_removeIf hkey hes

/-- Two computations that fail with the same error, or return values that are related. -/
inductive Both {α : Type} (R : α → α → Prop) : Except Error α → Except Error α → Prop
  | ok {a a' : α} (h : R a a') : Both R (.ok a) (.ok a')
  | error (e : Error) : Both R (.error e) (.error e)

theorem Both.refl {α : Type} {R : α → α → Prop} (hR : ∀ a, R a a) (x : Except Error α) :
    Both R x x := by
  cases x with
  | ok a => exact .ok (hR a)
  | error e => exact .error e

theorem Both.eq {α : Type} {x x' : Except Error α} (h : Both (· = ·) x x') : x = x' := by
  cases h with
  | ok h => exact congrArg _ h
  | error e => rfl

theorem Both.bind {α β : Type} {R : α → α → Prop} {x x' : Except Error α}
    {f f' : α → Except Error β} {Q : β → β → Prop} (h : Both R x x')
    (hf : ∀ a a', R a a' → Both Q (f a) (f' a')) : Both Q (x >>= f) (x' >>= f') := by
  cases h with
  | ok h => exact hf _ _ h
  | error e => exact .error e

theorem Both.map {α β : Type} {R : α → α → Prop} {Q : β → β → Prop} {x x' : Except Error α}
    {f : α → β} (h : Both R x x') (hf : ∀ a a', R a a' → Q (f a) (f a')) :
    Both Q (x.map f) (x'.map f) := by
  cases h with
  | ok h => exact .ok (hf _ _ h)
  | error e => exact .error e

theorem both_visitValues (h : List.Forall₂ (EntrySame settings) es es') :
    Both (fun us us' => List.Forall₂ (EntrySame settings) us us' ∧
      us.map Prod.fst = es.map Prod.fst) (visitValues env es) (visitValues env es') := by
  induction h with
  | nil => exact .ok ⟨.nil, rfl⟩
  | @cons e e' es es' he hes ih =>
    obtain ⟨key, v⟩ := e
    obtain ⟨key', v'⟩ := e'
    obtain ⟨hkey, hvalue⟩ := he
    obtain rfl : key = key' := hkey
    have hv : Both (fun u u' => EntrySame settings (key, u) (key, u')) (visit env v)
        (visit env v') := by
      rcases hvalue with hvalue | ⟨henv, hname, hhollow, hhollow'⟩
      · obtain rfl : v = v' := hvalue
        exact .refl (fun u => EntrySame.refl (key, u)) _
      · rw [hhollow.visit, hhollow'.visit]
        exact .ok ⟨rfl, .inr ⟨henv, hname, hhollow, hhollow'⟩⟩
    apply hv.bind
    intro u u' hu
    apply ih.bind
    rintro us us' ⟨hus, hkeys⟩
    exact .ok ⟨.cons hu hus, by rw [List.map_cons, List.map_cons, hkeys]⟩

theorem Same.visit (h : Same settings v v') :
    Both (Same settings) (ConfigSync.visit env v) (ConfigSync.visit env v') := by
  cases h with
  | refl v => exact .refl Same.refl _
  | @mapping es es' hkeys hes =>
    rw [ConfigSync.visit, ConfigSync.visit]
    apply (both_visitValues hes).map
    rintro us us' ⟨hus, hsame⟩
    exact .mapping (hsame ▸ hkeys) hus

theorem YamlCodec.Lawful.hollow (hcodec : codec.Lawful) (h : Hollow v) :
    codec.reread v = .ok v := by
  obtain ⟨keys, htext, hwritten⟩ := hcodec.mapping
  have hempty : codec.reread (.mapping []) = .ok (.mapping []) := (hwritten []).mpr nofun
  cases h with
  | empty => exact hempty
  | null =>
    apply (hwritten _).mpr
    rintro e he
    obtain rfl := List.mem_singleton.mp he
    exact ⟨htext _, hcodec.null⟩
  | mapping =>
    apply (hwritten _).mpr
    rintro e he
    obtain rfl := List.mem_singleton.mp he
    exact ⟨htext _, hempty⟩

theorem Same.reread (hcodec : codec.Lawful) (h : Same settings v v') :
    Both (Same settings) (codec.reread v) (codec.reread v') := by
  cases h with
  | refl v => exact .refl Same.refl _
  | @mapping es es' hkeys hes =>
    obtain ⟨keys, -, hwritten⟩ := hcodec.mapping
    have hsame : (∀ e ∈ es, e.1 ∈ keys ∧ codec.reread e.2 = .ok e.2) ↔
        ∀ e ∈ es', e.1 ∈ keys ∧ codec.reread e.2 = .ok e.2 := by
      clear hkeys
      induction hes with
      | nil => rfl
      | @cons e e' es es' he hes ih =>
        rw [List.forall_mem_cons, List.forall_mem_cons, ih, he.1]
        apply and_congr_left'
        apply and_congr_right'
        rcases he.2 with hvalue | ⟨-, -, hhollow, hhollow'⟩
        · rw [hvalue]
        · rw [hcodec.hollow hhollow, hcodec.hollow hhollow']
          exact iff_of_true rfl rfl
    by_cases hes' : codec.reread (.mapping es) = .ok (.mapping es)
    · rw [hes', (hwritten es').mpr (hsame.mp ((hwritten es).mp hes'))]
      exact .ok (.mapping hkeys hes)
    · have hother : codec.reread (.mapping es') ≠ .ok (.mapping es') := fun h =>
        hes' ((hwritten es).mpr (hsame.mpr ((hwritten es').mp h)))
      rw [(hcodec.reread _).resolve_left hes', (hcodec.reread _).resolve_left hother]
      exact .error _

theorem takeProjectLabels_same (h : List.Forall₂ (EntrySame settings) es es') :
    takeProjectLabels codec (.mapping es) = takeProjectLabels codec (.mapping es') := by
  induction h with
  | nil => rfl
  | @cons e e' es es' he hes ih =>
    obtain ⟨key, v⟩ := e
    obtain ⟨key', v'⟩ := e'
    obtain ⟨hkey, hvalue⟩ := he
    obtain rfl : key = key' := hkey
    by_cases hname : key.isText "notifications" = true
    · rcases hvalue with hvalue | ⟨-, -, hhollow, hhollow'⟩
      · obtain rfl : v = v' := hvalue
        simp [takeProjectLabels, asMapping, find, hname]
      · simp only [takeProjectLabels, asMapping, find, Option.bind_some, List.find?_cons, hname,
          Option.map_some, hhollow.envNotifications, hhollow'.envNotifications]
    · simpa only [takeProjectLabels, asMapping, find, Option.bind_some, List.find?_cons,
        Bool.not_eq_true _ ▸ hname] using ih

theorem Same.parseValue (h : Same settings v v') :
    parseValue P codec settings v = parseValue P codec settings v' := by
  have hdiscard := h.discard
  unfold ConfigSync.parseValue
  dsimp only
  generalize discardUiSections settings v = u at hdiscard ⊢
  generalize discardUiSections settings v' = u' at hdiscard ⊢
  cases hdiscard with
  | refl u => rfl
  | @mapping es es' hkeys hes =>
    by_cases henv : settings.serviceSource = .env
    · have hrest : swapRemove "notifications" es = swapRemove "notifications" es' := by
        have hswap : List.Forall₂ (EntrySame settings) (swapRemove "notifications" es)
            (swapRemove "notifications" es') := forall₂_swapRemove (fun e e' h => h.1) hes
        have hne := (List.forall₂_and_left _ _).mpr
          ⟨fun _ he => ne_of_mem_swapRemove hkeys he, hswap⟩
        have heq := hne.imp fun e e' h => h.2.eq fun _ => h.1
        rwa [List.forall₂_eq_eq_eq] at heq
      simp only [if_pos henv, mapMapping, takeProjectLabels_same hes, hrest]
    · have heq := hes.imp fun e e' h => h.eq fun henv' => absurd henv' henv
      rw [List.forall₂_eq_eq_eq] at heq
      rw [heq]

/-- Documents that differ only inside sections that the file does not manage are read alike: with
the same file, or the same error. -/
theorem readConfiguration_alike (P : Platform) (codec : YamlCodec) (env : String → Option String)
    (settings : ManagementSettings) (d d' : Yaml) (hcodec : codec.Lawful) (hd : Keyed d)
    (hd' : Keyed d') (h : Alike settings Shaped d d') :
    readConfiguration P codec env settings d = readConfiguration P codec env settings d' := by
  apply Both.eq
  apply (Same.discard_alike hd hd' h).visit.bind
  intro u u' hu
  apply (hu.reread hcodec).bind
  intro w w' hw
  rw [hw.parseValue]
  exact .refl (fun _ => rfl) _

end

def environmentSettings : ManagementSettings where
  projectSource := .ui
  teamSource := .ui
  serviceSource := .env
  notificationSource := .ui
  projectOrphanPolicy := .readonly
  teamOrphanPolicy := .readonly

def asciiPlatform : Platform where
  toLowercase := id
  sqlLower := id
  debug := fun s => "\"" ++ s ++ "\""
  parseUrl := fun _ => none
  dbText := fun _ => ""
  uniqueViolation := .rowNotFound
  foreignKeyViolation := .rowNotFound

/-- Of a file, only its version is there; of labels, none. -/
def versionCodec : YamlCodec where
  configFile
    | .mapping [(.string "version", .number (.posInt n))] =>
      some ⟨n.toNat, none, none, none, .empty⟩
    | _ => none
  projectLabels
    | .mapping [] => some .empty
    | _ => none
  reread := .ok

theorem versionCodec_lawful : versionCodec.Lawful where
  reread := fun _ => .inl rfl
  null := rfl
  mapping := ⟨Set.univ, fun _ => trivial, fun _ => ⟨fun _ _ _ => ⟨trivial, rfl⟩, fun _ => rfl⟩⟩

/-- A first version whose `projects` and `notifications` are these. -/
def documentOf (projects : Yaml) (notifications : List (Yaml × Yaml)) : Yaml :=
  .mapping [(.string "version", .number (.posInt 1)), (.string "projects", projects),
    (.string "notifications", .mapping notifications)]

/-- References to variables that are not set stand in what is ignored. -/
def unsetDocument : Yaml :=
  documentOf (.string "$\x7bUNSET\x7d")
    [(.string "alertmanager", .mapping [(.string "enabled", .string "$\x7bUNSET\x7d"),
      (.string "project_labels", .mapping [])])]

def emptyDocument : Yaml :=
  documentOf (.sequence [])
    [(.string "alertmanager", .mapping [(.string "project_labels", .mapping [])])]

theorem readConfiguration_alike_unset :
    readConfiguration asciiPlatform versionCodec (fun _ => none) environmentSettings
        unsetDocument =
      readConfiguration asciiPlatform versionCodec (fun _ => none) environmentSettings
        emptyDocument := by
  refine readConfiguration_alike asciiPlatform versionCodec (fun _ => none) environmentSettings
    unsetDocument emptyDocument versionCodec_lawful ?_ ?_ (.inr ⟨_, _, rfl, rfl, ?_⟩)
  · simp [unsetDocument, documentOf, Keyed, KeyedValues]
  · simp [emptyDocument, documentOf, Keyed, KeyedValues, KeyedElems]
  · refine .cons ⟨rfl, .inl rfl⟩ (.cons ⟨rfl, .inr (.inl ⟨_, .inl ⟨rfl, rfl⟩, rfl⟩)⟩ (.cons ?_ .nil))
    refine ⟨rfl, .inr (.inr ⟨rfl, rfl, _, _, rfl, rfl, ?_, ?_, rfl⟩)⟩
    · simp only [Shaped, List.forall_mem_singleton]
      refine fun _ => ⟨trivial, .inr ⟨_, rfl, ?_⟩⟩
      simp only [List.forall_mem_cons, asStr]
      simp
    · simp [Shaped, asStr]

def silentDocument : Yaml := documentOf (.sequence []) []

/-- The value of `alertmanager` is a text, which holds no labels. -/
def textDocument : Yaml :=
  documentOf (.sequence []) [(.string "alertmanager", .string "$\x7bUNSET\x7d")]

/-- A text in the place of `alertmanager` is not ignored: its reference is expanded. -/
theorem alertmanager_text_read :
    Keyed silentDocument ∧ Keyed textDocument ∧
      Alike environmentSettings (fun _ => True) silentDocument textDocument ∧
      readConfiguration asciiPlatform versionCodec (fun _ => none) environmentSettings
          silentDocument ≠
        readConfiguration asciiPlatform versionCodec (fun _ => none) environmentSettings
          textDocument := by
  refine ⟨?_, ?_, .inr ⟨_, _, rfl, rfl, ?_⟩, ?_⟩
  · simp [silentDocument, documentOf, Keyed, KeyedValues, KeyedElems]
  · simp [textDocument, documentOf, Keyed, KeyedValues, KeyedElems]
  · refine .cons ⟨rfl, .inl rfl⟩ (.cons ⟨rfl, .inl rfl⟩ (.cons ?_ .nil))
    exact ⟨rfl, .inr (.inr ⟨rfl, rfl, _, _, rfl, rfl, trivial, trivial, rfl⟩)⟩
  · have hread : readConfiguration asciiPlatform versionCodec (fun _ => none) environmentSettings
        silentDocument = .ok ⟨1, none, none, none, .empty⟩ := rfl
    have hunset : readConfiguration asciiPlatform versionCodec (fun _ => none) environmentSettings
        textDocument = .error (.validation "environment variable UNSET is not set") := rfl
    rw [hread, hunset]
    exact nofun

end Soika.ConfigSync
