import Mathlib.Data.List.Forall2
import Mathlib.Data.List.Nodup
import Mathlib.Tactic.SplitIfs
import Soika.Domain.Json

/-! # YAML values

The values of `serde_yaml_ng`. A mapping is the list of its entries, in order; its keys are values
too.
-/

namespace Soika

/-- `serde_yaml_ng::Value`. -/
inductive Yaml where
  | null
  | bool (b : Bool)
  | number (n : Number)
  | string (s : String)
  | sequence (elems : List Yaml)
  | mapping (entries : List (Yaml × Yaml))
  | tagged (tag : String) (value : Yaml)

namespace Yaml

mutual

/-- The same tree with other texts. Keys and tagged values are left as they are. -/
def mapTexts (f : String → String) : Yaml → Yaml
  | string s => string (f s)
  | sequence elems => sequence (mapElems f elems)
  | mapping entries => mapping (mapValues f entries)
  | null => null
  | bool b => bool b
  | number n => number n
  | tagged tag value => tagged tag value

def mapElems (f : String → String) : List Yaml → List Yaml
  | [] => []
  | elem :: elems => mapTexts f elem :: mapElems f elems

def mapValues (f : String → String) : List (Yaml × Yaml) → List (Yaml × Yaml)
  | [] => []
  | (key, value) :: entries => (key, mapTexts f value) :: mapValues f entries

end

/-- A text of the tree, not in a key and not tagged. -/
inductive TextAt : Yaml → String → Prop
  | string (s : String) : TextAt (string s) s
  | elem {elems : List Yaml} {v : Yaml} {s : String} (hv : v ∈ elems) (h : TextAt v s) :
      TextAt (sequence elems) s
  | value {entries : List (Yaml × Yaml)} {key v : Yaml} {s : String} (hv : (key, v) ∈ entries)
      (h : TextAt v s) : TextAt (mapping entries) s

-- The entries of a mapping are found, changed and removed by the text of their key; a key with a tag
-- is another key, but its text can be read.

def isText (name : String) : Yaml → Bool
  | string s => s = name
  | _ => false

/-- `as_str`, which looks under tags. -/
def asStr : Yaml → Option String
  | string s => some s
  | tagged _ v => v.asStr
  | _ => none

/-- `as_mapping`, which looks under tags. -/
def asMapping : Yaml → Option (List (Yaml × Yaml))
  | mapping entries => some entries
  | tagged _ v => v.asMapping
  | _ => none

/-- Change what `as_mapping_mut` gives. -/
def mapMapping (f : List (Yaml × Yaml) → List (Yaml × Yaml)) : Yaml → Yaml
  | mapping entries => mapping (f entries)
  | tagged tag v => tagged tag (v.mapMapping f)
  | v => v

/-- `Mapping::get` -/
def find (name : String) (entries : List (Yaml × Yaml)) : Option Yaml :=
  (entries.find? fun e => e.1.isText name).map Prod.snd

/-- Change what `Mapping::get_mut` gives. -/
def modifyAt (name : String) (f : Yaml → Yaml) (entries : List (Yaml × Yaml)) :
    List (Yaml × Yaml) :=
  entries.map fun e => if e.1.isText name then (e.1, f e.2) else e

/-- `Mapping::remove`: the last entry takes the place of the one that is removed. -/
def swapRemove (name : String) : List (Yaml × Yaml) → List (Yaml × Yaml)
  | [] => []
  | e :: es =>
    if e.1.isText name then es.drop (es.length - 1) ++ es.take (es.length - 1)
    else e :: swapRemove name es

/-- `Mapping::retain` of the keys with this text. -/
def retain (name : String) (entries : List (Yaml × Yaml)) : List (Yaml × Yaml) :=
  entries.filter fun e => e.1.asStr = some name

mutual

/-- The keys of every mapping are distinct, as they are in an index map. -/
def Keyed : Yaml → Prop
  | sequence elems => KeyedElems elems
  | mapping entries => (entries.map Prod.fst).Nodup ∧ KeyedValues entries
  | tagged _ v => Keyed v
  | _ => True

def KeyedElems : List Yaml → Prop
  | [] => True
  | v :: elems => Keyed v ∧ KeyedElems elems

def KeyedValues : List (Yaml × Yaml) → Prop
  | [] => True
  | (key, v) :: entries => Keyed key ∧ Keyed v ∧ KeyedValues entries

end

section

variable {name : String} {es es' : List (Yaml × Yaml)} {e : Yaml × Yaml}
  {R : Yaml × Yaml → Yaml × Yaml → Prop}

theorem isText_iff {v : Yaml} : v.isText name = true ↔ v = string name := by
  cases v <;> simp [isText]

theorem KeyedValues.mem {key v : Yaml} (h : KeyedValues es) (hmem : (key, v) ∈ es) : Keyed v := by
  induction es with
  | nil => cases hmem
  | cons e es ih =>
    obtain ⟨-, hv, hes⟩ := h
    rcases List.mem_cons.mp hmem with rfl | hmem
    · exact hv
    · exact ih hes hmem

theorem swapRemove_perm : (swapRemove name es).Perm (es.eraseP fun e => e.1.isText name) := by
  induction es with
  | nil => exact .nil
  | cons e es ih =>
    rw [swapRemove]
    by_cases h : e.1.isText name = true
    · rw [if_pos h, List.eraseP_cons_of_pos (by simpa using h)]
      apply List.perm_append_comm.trans
      rw [List.take_append_drop]
    · rw [if_neg h, List.eraseP_cons_of_neg (by simpa using h)]
      exact ih.cons e

theorem nodup_swapRemove (h : (es.map Prod.fst).Nodup) :
    ((swapRemove name es).map Prod.fst).Nodup := by
  apply ((swapRemove_perm.map Prod.fst).nodup_iff).mpr
  exact h.sublist (List.eraseP_sublist.map Prod.fst)

theorem mem_of_mem_swapRemove (h : e ∈ swapRemove name es) : e ∈ es :=
  List.mem_of_mem_eraseP (swapRemove_perm.mem_iff.mp h)

theorem ne_of_mem_swapRemove (hes : (es.map Prod.fst).Nodup) (h : e ∈ swapRemove name es) :
    e.1 ≠ string name := by
  have herase := swapRemove_perm.mem_iff.mp h
  clear h
  induction es with
  | nil => cases herase
  | cons e' es ih =>
    obtain ⟨hnew, hes⟩ := List.nodup_cons.mp hes
    by_cases htext : e'.1.isText name = true
    · rw [List.eraseP_cons_of_pos (by simpa using htext)] at herase
      intro he
      apply hnew
      rw [isText_iff.mp htext, ← he]
      exact List.mem_map_of_mem herase
    · rw [List.eraseP_cons_of_neg (by simpa using htext)] at herase
      rcases List.mem_cons.mp herase with rfl | herase
      · exact mt isText_iff.mpr htext
      · exact ih hes herase

theorem forall₂_swapRemove (hR : ∀ e e', R e e' → e.1 = e'.1) (h : List.Forall₂ R es es') :
    List.Forall₂ R (swapRemove name es) (swapRemove name es') := by
  induction h with
  | nil => exact .nil
  | @cons e e' es es' he hes ih =>
    rw [swapRemove, swapRemove, ← hR e e' he, ← hes.length_eq]
    split_ifs
    · exact List.rel_append (List.forall₂_drop _ hes) (List.forall₂_take _ hes)
    · exact .cons he ih

/-- Under distinct keys, the entries that are retained are the one under the name, when no key has
it under a tag. -/
theorem retain_eq (hplain : ∀ e ∈ es, e.1.asStr = some name → e.1 = string name)
    (hes : (es.map Prod.fst).Nodup) :
    retain name es = ((find name es).map fun v => (string name, v)).toList := by
  induction es with
  | nil => rfl
  | cons e es ih =>
    obtain ⟨he, hplain⟩ := List.forall_mem_cons.mp hplain
    obtain ⟨hnew, hes⟩ := List.nodup_cons.mp hes
    by_cases htext : e.1.isText name = true
    · have hkey := isText_iff.mp htext
      have hrest : retain name es = [] := by
        apply List.filter_eq_nil_iff.mpr
        intro e' he' hname
        apply hnew
        rw [hkey, ← hplain e' he' (by simpa using hname)]
        exact List.mem_map_of_mem he'
      obtain ⟨key, v⟩ := e
      obtain rfl : key = string name := hkey
      change List.filter _ _ = _ at hrest
      simp [retain, find, asStr, isText, hrest]
    · have hne : e.1.asStr ≠ some name := fun h => htext (isText_iff.mpr (he h))
      have ih := ih hplain hes
      unfold retain find at ih ⊢
      rw [List.filter_cons_of_neg (by simpa using hne), List.find?_cons_of_neg (by simpa using htext),
        ih]

end

end Yaml

end Soika
