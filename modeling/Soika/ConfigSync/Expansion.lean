import Soika.Domain.Find
import Soika.Domain.Yaml
import Soika.Error

/-! # Expansion of environment variables

The texts of a configuration file are expanded after it has been parsed. Each reference is replaced
once, by a value that is not looked at again, and the tree around the texts stays as it is.
-/

namespace Soika.ConfigSync

open Delimited

def referenceOpening : List Char := ['$', '\x7b']

def referenceClosing : List Char := ['\x7d']

section

-- `std::env::var`; none for a variable that is not set, or is not Unicode
variable (env : String → Option String)

/-- The loop of `expand` from the text that remains; a text has fewer references than characters. -/
def expandRounds : ℕ → List Char → Except Error (List Char)
  | 0, remaining => .ok remaining
  | rounds + 1, remaining =>
    match cutText referenceOpening remaining with
    | none => .ok remaining
    | some (before, tail) =>
      match cutText referenceClosing tail with
      | none => .error (.validation "unterminated environment variable reference")
      | some (key, rest) =>
        match env (String.ofList key) with
        | none =>
          .error (.validation ("environment variable " ++ String.ofList key ++ " is not set"))
        | some value =>
          match expandRounds rounds rest with
          | .ok out => .ok (before ++ value.toList ++ out)
          | .error e => .error e

def expand (value : String) : Except Error String :=
  (expandRounds env value.toList.length value.toList).map String.ofList

mutual

/-- Expand the texts of a tree, in place. -/
def visit : Yaml → Except Error Yaml
  | .string s => (expand env s).map .string
  | .sequence seq => (visitElems seq).map .sequence
  | .mapping map => (visitValues map).map .mapping
  | .null => .ok .null
  | .bool b => .ok (.bool b)
  | .number n => .ok (.number n)
  | .tagged tag value => .ok (.tagged tag value)

def visitElems : List Yaml → Except Error (List Yaml)
  | [] => .ok []
  | v :: seq => do
    let v ← visit v
    let seq ← visitElems seq
    return v :: seq

def visitValues : List (Yaml × Yaml) → Except Error (List (Yaml × Yaml))
  | [] => .ok []
  | (key, v) :: map => do
    let v ← visit v
    let map ← visitValues map
    return (key, v) :: map

end

def referenceValue (key : List Char) : List Char := ((env (String.ofList key)).getD "").toList

/-- Every opening is closed, and the references that a scan meets are to variables that are set. -/
structure Expandable (s : String) : Prop where
  terminated : Terminated referenceOpening referenceClosing s.toList
  set : ∀ key, Refers referenceOpening referenceClosing s.toList key →
    (env (String.ofList key)).isSome = true

/-- The text with the value of each reference in its place, and everything else as it was. -/
def ExpandsTo (s out : String) : Prop :=
  ∃ references last, Cut referenceOpening referenceClosing s.toList references last ∧
    spell referenceOpening referenceClosing references last = s.toList ∧
    (∀ r ∈ references, (env (String.ofList r.2)).isSome = true) ∧
    out = String.ofList (fill (referenceValue env) references last)

end

variable {env : String → Option String}

theorem expandRounds_of_cut {s last : List Char} {references : List (List Char × List Char)}
    (h : Cut referenceOpening referenceClosing s references last)
    (hset : ∀ r ∈ references, (env (String.ofList r.2)).isSome = true) {rounds : ℕ}
    (hrounds : s.length ≤ rounds) :
    expandRounds env rounds s = .ok (fill (referenceValue env) references last) := by
  induction h generalizing rounds with
  | last hopn =>
    cases rounds with
    | zero => rfl
    | succ rounds => rw [expandRounds, (cutText_eq_none (by decide)).mpr hopn, fill_nil]
  | @ref s before tail key rest last references hopn hcls h ih =>
    obtain ⟨hkey, hset⟩ := List.forall_mem_cons.mp hset
    obtain ⟨value, hvalue⟩ := Option.isSome_iff_exists.mp hkey
    have hopn := (cutText_eq_some (by decide)).mpr hopn
    have hcls := (cutText_eq_some (by decide)).mpr hcls
    have hs := cutText_length hopn
    have htail := cutText_length hcls
    simp only [referenceOpening, referenceClosing, List.length_cons, List.length_nil] at hs htail
    obtain ⟨rounds, rfl⟩ : ∃ n, rounds = n + 1 := ⟨rounds - 1, by omega⟩
    have hrest : expandRounds env rounds rest = .ok (fill (referenceValue env) references last) :=
      ih hset (by omega)
    simp [expandRounds, hopn, hcls, hvalue, hrest, referenceValue]

theorem cut_of_expandRounds {rounds : ℕ} {s out : List Char} (hrounds : s.length ≤ rounds)
    (h : expandRounds env rounds s = .ok out) : ∃ references last,
      Cut referenceOpening referenceClosing s references last ∧
      ∀ r ∈ references, (env (String.ofList r.2)).isSome = true := by
  induction rounds generalizing s out with
  | zero =>
    obtain rfl := List.length_eq_zero_iff.mp (Nat.le_zero.mp hrounds)
    exact ⟨[], [], .last (by decide), by simp⟩
  | succ rounds ih =>
    rw [expandRounds] at h
    split at h
    · rename_i hopn
      exact ⟨[], s, .last ((cutText_eq_none (by decide)).mp hopn), by simp⟩
    · rename_i before tail hopn
      split at h
      · cases h
      · rename_i key rest hcls
        split at h
        · cases h
        · rename_i value hvalue
          split at h
          · rename_i out' hrest
            have hs := cutText_length hopn
            have htail := cutText_length hcls
            simp only [referenceOpening, referenceClosing, List.length_cons, List.length_nil] at hs htail
            obtain ⟨references, last, hcut, hset⟩ := ih (by omega) hrest
            refine ⟨_, last, .ref ((cutText_eq_some (by decide)).mp hopn)
              ((cutText_eq_some (by decide)).mp hcls) hcut, List.forall_mem_cons.mpr ⟨?_, hset⟩⟩
            simp [hvalue]
          · cases h

theorem delimiters_disjoint : referenceOpening.Disjoint referenceClosing := by
  simp [referenceOpening, referenceClosing]

theorem exists_expand_iff {s : String} : (∃ out, expand env s = .ok out) ↔ Expandable env s := by
  have hterminated := exists_cut_iff (by decide) (by decide) delimiters_disjoint (s := s.toList)
  constructor
  · rintro ⟨out, hout⟩
    unfold expand at hout
    cases hrounds : expandRounds env s.toList.length s.toList with
    | error e =>
      rw [hrounds] at hout
      cases hout
    | ok chars =>
      obtain ⟨references, last, hcut, hset⟩ := cut_of_expandRounds le_rfl hrounds
      refine ⟨hterminated.mp ⟨references, last, hcut⟩, fun key hkey => ?_⟩
      obtain ⟨r, hr, rfl⟩ := hcut.refers_iff.mp hkey
      exact hset r hr
  · rintro ⟨hclosed, hset⟩
    obtain ⟨references, last, hcut⟩ := hterminated.mpr hclosed
    have hrounds := expandRounds_of_cut hcut
      (fun r hr => hset r.2 (hcut.refers_iff.mpr ⟨r, hr, rfl⟩)) le_rfl
    exact ⟨_, by rw [expand, hrounds]; rfl⟩

theorem expandsTo_of_expand {s out : String} (h : expand env s = .ok out) : ExpandsTo env s out := by
  unfold expand at h
  cases hrounds : expandRounds env s.toList.length s.toList with
  | error e =>
    rw [hrounds] at h
    cases h
  | ok chars =>
    obtain ⟨references, last, hcut, hset⟩ := cut_of_expandRounds le_rfl hrounds
    rw [expandRounds_of_cut hcut hset le_rfl] at h
    cases h
    exact ⟨references, last, hcut, hcut.spell_eq, hset, rfl⟩

theorem not_expandable_iff {s : String} : ¬ Expandable env s ↔
    ¬ Terminated referenceOpening referenceClosing s.toList ∨
      ∃ key, Refers referenceOpening referenceClosing s.toList key ∧
        env (String.ofList key) = none := by
  constructor
  · intro h
    by_contra hnone
    push Not at hnone
    exact h ⟨hnone.1, fun key hkey => Option.isSome_iff_ne_none.mpr (hnone.2 key hkey)⟩
  · rintro (hopen | ⟨key, hkey, hunset⟩) ⟨hclosed, hset⟩
    · exact hopen hclosed
    · simpa [hunset] using hset key hkey

section

variable {f : String → String}

mutual

theorem visit_of_texts : ∀ (t : Yaml), (∀ s, t.TextAt s → expand env s = .ok (f s)) →
    visit env t = .ok (t.mapTexts f)
  | .null, _ => rfl
  | .bool _, _ => rfl
  | .number _, _ => rfl
  | .tagged _ _, _ => rfl
  | .string s, h => by rw [visit, h s (.string s)]; rfl
  | .sequence elems, h => by
    rw [visit, visitElems_of_texts elems fun v hv s hs => h s (.elem hv hs)]
    rfl
  | .mapping entries, h => by
    rw [visit, visitValues_of_texts entries fun e he s hs => h s (.value he hs)]
    rfl

theorem visitElems_of_texts : ∀ (elems : List Yaml),
    (∀ v ∈ elems, ∀ s, v.TextAt s → expand env s = .ok (f s)) →
    visitElems env elems = .ok (Yaml.mapElems f elems)
  | [], _ => rfl
  | v :: elems, h => by
    obtain ⟨hv, helems⟩ := List.forall_mem_cons.mp h
    rw [visitElems, visit_of_texts v hv, visitElems_of_texts elems helems]
    rfl

theorem visitValues_of_texts : ∀ (entries : List (Yaml × Yaml)),
    (∀ e ∈ entries, ∀ s, e.2.TextAt s → expand env s = .ok (f s)) →
    visitValues env entries = .ok (Yaml.mapValues f entries)
  | [], _ => rfl
  | (key, v) :: entries, h => by
    obtain ⟨hv, hentries⟩ := List.forall_mem_cons.mp h
    rw [visitValues, visit_of_texts v hv, visitValues_of_texts entries hentries]
    rfl

end

end

theorem visit_of_visitElems {elems elems' : List Yaml} (h : visitElems env elems = .ok elems') :
    ∀ v ∈ elems, ∃ v', visit env v = .ok v' := by
  induction elems generalizing elems' with
  | nil => simp
  | cons v elems ih =>
    rw [visitElems] at h
    obtain ⟨v', hv, h⟩ := bind_eq_ok.mp h
    obtain ⟨seq, hseq, -⟩ := bind_eq_ok.mp h
    exact List.forall_mem_cons.mpr ⟨⟨v', hv⟩, ih hseq⟩

theorem visit_of_visitValues {entries entries' : List (Yaml × Yaml)}
    (h : visitValues env entries = .ok entries') : ∀ e ∈ entries, ∃ v', visit env e.2 = .ok v' := by
  induction entries generalizing entries' with
  | nil => simp
  | cons e entries ih =>
    rw [visitValues] at h
    obtain ⟨v', hv, h⟩ := bind_eq_ok.mp h
    obtain ⟨map, hmap, -⟩ := bind_eq_ok.mp h
    exact List.forall_mem_cons.mpr ⟨⟨v', hv⟩, ih hmap⟩

theorem expand_of_visit {t : Yaml} {s : String} (hs : t.TextAt s) {t' : Yaml}
    (h : visit env t = .ok t') : ∃ out, expand env s = .ok out := by
  induction hs generalizing t' with
  | string s =>
    rw [visit] at h
    cases hexpand : expand env s with
    | error e =>
      rw [hexpand] at h
      cases h
    | ok out => exact ⟨out, rfl⟩
  | @elem elems v s hv hs ih =>
    rw [visit] at h
    cases hvisit : visitElems env elems with
    | error e =>
      rw [hvisit] at h
      cases h
    | ok seq =>
      obtain ⟨v', hv'⟩ := visit_of_visitElems hvisit v hv
      exact ih hv'
  | @value entries key v s hv hs ih =>
    rw [visit] at h
    cases hvisit : visitValues env entries with
    | error e =>
      rw [hvisit] at h
      cases h
    | ok map =>
      obtain ⟨v', hv'⟩ := visit_of_visitValues hvisit (key, v) hv
      exact ih hv'

theorem exists_visit_iff {t : Yaml} :
    (∃ t', visit env t = .ok t') ↔ ∀ s, t.TextAt s → Expandable env s := by
  constructor
  · rintro ⟨t', h⟩ s hs
    exact exists_expand_iff.mp (expand_of_visit hs h)
  · intro h
    refine ⟨_, visit_of_texts (f := fun s => ((expand env s).toOption).getD s) t fun s hs => ?_⟩
    obtain ⟨out, hout⟩ := exists_expand_iff.mpr (h s hs)
    rw [hout]
    rfl

/--
Expanding a tree fails exactly when some text of it, other than in a key, has an opening that is not
closed or a reference to a variable that is not set. Otherwise the tree stays the same, with every
reference in such a text replaced once.
-/
theorem visit_expansion (env : String → Option String) (t : Yaml) :
    ((∃ e, visit env t = .error e) ↔ ∃ s, t.TextAt s ∧
      (¬ Terminated referenceOpening referenceClosing s.toList ∨
        ∃ key, Refers referenceOpening referenceClosing s.toList key ∧
          env (String.ofList key) = none)) ∧
    ∀ t', visit env t = .ok t' →
      ∃ f : String → String, t' = t.mapTexts f ∧ ∀ s, t.TextAt s → ExpandsTo env s (f s) := by
  constructor
  · simp only [← not_expandable_iff]
    have hok : (∃ t', visit env t = .ok t') ↔ ∀ s, t.TextAt s → Expandable env s := exists_visit_iff
    constructor
    · rintro ⟨e, he⟩
      by_contra hnone
      push Not at hnone
      obtain ⟨t', ht'⟩ := hok.mpr hnone
      rw [he] at ht'
      cases ht'
    · rintro ⟨s, hs, hbad⟩
      cases hvisit : visit env t with
      | error e => exact ⟨e, rfl⟩
      | ok t' => exact absurd (hok.mp ⟨t', hvisit⟩ s hs) hbad
  · intro t' h
    have htexts : ∀ s, t.TextAt s → expand env s = .ok (((expand env s).toOption).getD s) := by
      intro s hs
      obtain ⟨out, hout⟩ := expand_of_visit hs h
      rw [hout]
      rfl
    refine ⟨fun s => ((expand env s).toOption).getD s, ?_, fun s hs =>
      expandsTo_of_expand (htexts s hs)⟩
    rw [visit_of_texts t htexts] at h
    exact (Except.ok.inj h).symm

/-- A value with reference syntax is not expanded again. -/
example : expand (fun name => if name = "A" then some "$\x7bB\x7d" else none) "x$\x7bA\x7dy" =
    .ok "x$\x7bB\x7dy" := by decide

end Soika.ConfigSync
