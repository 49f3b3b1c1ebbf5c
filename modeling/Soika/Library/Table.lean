import Mathlib.Data.List.Nodup
import Mathlib.Data.List.Basic

/-! # Tables

A table is a list of rows. A key of the row type addresses rows; updates and
deletions through one key are described for that key and for every other one.
-/

namespace Table

variable {α κ ι : Type} {key : α → κ} {other : α → ι}

/-- No two rows have the same key. -/
def UniqueOn (key : α → κ) (rows : List α) : Prop := (rows.map key).Nodup

instance [DecidableEq κ] (rows : List α) : Decidable (UniqueOn key rows) :=
  inferInstanceAs (Decidable (List.Nodup _))

namespace UniqueOn

theorem nil : UniqueOn key ([] : List α) := List.nodup_nil

theorem cons_iff {a : α} {rows : List α} :
    UniqueOn key (a :: rows) ↔ (∀ b ∈ rows, key b ≠ key a) ∧ UniqueOn key rows := by
  simp [UniqueOn]

theorem append_single {a : α} {rows : List α} (h : UniqueOn key rows)
    (ha : ∀ b ∈ rows, key b ≠ key a) : UniqueOn key (rows ++ [a]) := by
  simp only [UniqueOn, List.map_append, List.map_cons, List.map_nil]
  refine List.nodup_append.mpr ⟨h, List.nodup_singleton _, ?_⟩
  simpa using ha

theorem filter (p : α → Bool) {rows : List α} (h : UniqueOn key rows) :
    UniqueOn key (rows.filter p) :=
  h.sublist (List.filter_sublist.map key)

theorem eq_of_key {rows : List α} (h : UniqueOn key rows) {a b : α} (ha : a ∈ rows) (hb : b ∈ rows)
    (hk : key a = key b) : a = b :=
  List.inj_on_of_nodup_map h ha hb hk

theorem map {f : α → α} (hf : ∀ a, key (f a) = key a) {rows : List α} (h : UniqueOn key rows) :
    UniqueOn key (rows.map f) := by
  have hkey : key ∘ f = key := funext hf
  rwa [UniqueOn, List.map_map, hkey]

end UniqueOn

variable [DecidableEq κ]

/-- The first row with key `k`. -/
def lookup (key : α → κ) (k : κ) (rows : List α) : Option α := rows.find? fun a => key a = k

/-- Apply `f` to the rows with key `k`. -/
def modify (key : α → κ) (k : κ) (f : α → α) (rows : List α) : List α :=
  rows.map fun a => if key a = k then f a else a

/-- Delete the rows with key `k`. -/
def remove (key : α → κ) (k : κ) (rows : List α) : List α := rows.filter fun a => key a ≠ k

/-- The rows with key `k`. -/
def select (key : α → κ) (k : κ) (rows : List α) : List α := rows.filter fun a => key a = k

theorem mem_select {k : κ} {rows : List α} {a : α} : a ∈ select key k rows ↔ a ∈ rows ∧ key a = k := by
  simp [select]

theorem select_append (k : κ) (rows rows' : List α) :
    select key k (rows ++ rows') = select key k rows ++ select key k rows' :=
  List.filter_append ..

theorem select_remove_self (k : κ) (rows : List α) : select key k (remove key k rows) = [] := by
  simp [select, remove]

theorem select_remove_ne {k l : κ} (hkl : l ≠ k) (rows : List α) :
    select key l (remove key k rows) = select key l rows := by
  rw [select, remove, List.filter_filter]
  refine List.filter_congr fun a _ => ?_
  by_cases h : key a = l <;> simp [h, hkl]

theorem lookup_eq_some_mem {k : κ} {rows : List α} {a : α} (h : lookup key k rows = some a) :
    a ∈ rows ∧ key a = k :=
  ⟨List.mem_of_find?_eq_some h, by simpa using List.find?_some h⟩

theorem lookup_eq_none {k : κ} {rows : List α} :
    lookup key k rows = none ↔ ∀ a ∈ rows, key a ≠ k := by
  simp [lookup, List.find?_eq_none]

@[simp] theorem lookup_nil (k : κ) : lookup key k ([] : List α) = none := rfl

theorem lookup_cons (k : κ) (a : α) (rows : List α) :
    lookup key k (a :: rows) = if key a = k then some a else lookup key k rows := by
  by_cases h : key a = k <;> simp [lookup, h]

theorem mem_modify {k : κ} {f : α → α} {rows : List α} {b : α} :
    b ∈ modify key k f rows ↔ ∃ a ∈ rows, (if key a = k then f a else a) = b := by
  simp [modify]

theorem mem_remove {k : κ} {rows : List α} {a : α} :
    a ∈ remove key k rows ↔ a ∈ rows ∧ key a ≠ k := by
  simp [remove]

namespace UniqueOn

theorem remove {k : κ} {rows : List α} (h : UniqueOn other rows) :
    UniqueOn other (remove key k rows) :=
  h.filter _

theorem lookup_of_mem {rows : List α} (h : UniqueOn key rows) {a : α} (ha : a ∈ rows) :
    lookup key (key a) rows = some a := by
  cases hl : lookup key (key a) rows with
  | none => exact absurd rfl (lookup_eq_none.mp hl a ha)
  | some b =>
    obtain ⟨hb, hk⟩ := lookup_eq_some_mem hl
    rw [h.eq_of_key hb ha hk]

theorem modify {k : κ} {f : α → α} (hf : ∀ a, other (f a) = other a) {rows : List α}
    (h : UniqueOn other rows) : UniqueOn other (modify key k f rows) :=
  h.map fun a => by split <;> simp [hf]

/-- Giving one row a second key that no other row holds keeps the second keys unique. -/
theorem modify_to {k : κ} {f : α → α} {rows : List α} (h : UniqueOn other rows)
    (hk : UniqueOn key rows) (hf : ∀ a ∈ rows, key a = k → ∀ b ∈ rows, key b ≠ k →
      other b ≠ other (f a)) : UniqueOn other (Table.modify key k f rows) := by
  induction rows with
  | nil => exact .nil
  | cons a rows ih =>
    obtain ⟨ha, hr⟩ := cons_iff.mp h
    obtain ⟨hka, hkr⟩ := cons_iff.mp hk
    have hrest := ih hr hkr fun b hb hbk c hc => hf b (by simp [hb]) hbk c (by simp [hc])
    refine cons_iff.mpr ⟨fun b hb => ?_, hrest⟩
    obtain ⟨c, hc, rfl⟩ := mem_modify.mp hb
    by_cases hak : key a = k
    · have hck : key c ≠ k := hak ▸ hka c hc
      simpa [hak, hck] using hf a (by simp) hak c (by simp [hc]) hck
    · by_cases hck : key c = k
      · simpa [hak, hck] using (hf c (by simp [hc]) hck a (by simp) hak).symm
      · simpa [hak, hck] using ha c hc

end UniqueOn

theorem lookup_append_single {k : κ} {rows : List α} {a : α} :
    lookup key k (rows ++ [a]) =
      (lookup key k rows).or (if key a = k then some a else none) := by
  by_cases h : key a = k <;> simp [lookup, List.find?_append, h]

theorem lookup_map {f : α → α} (hf : ∀ a, key (f a) = key a) (k : κ) (rows : List α) :
    lookup key k (rows.map f) = (lookup key k rows).map f := by
  have hkey : (fun a => decide (key a = k)) ∘ f = fun a => decide (key a = k) :=
    funext fun a => by simp [hf]
  rw [lookup, lookup, List.find?_map, hkey]

/-- An update through one key, seen through another that it keeps. -/
theorem lookup_modify [DecidableEq ι] {f : α → α} (hf : ∀ a, key (f a) = key a) (k : κ) (l : ι)
    (rows : List α) : lookup key k (modify other l f rows) =
      (lookup key k rows).map fun a => if other a = l then f a else a :=
  lookup_map (fun a => by split <;> simp [hf]) k rows

theorem lookup_modify_self {f : α → α} (hf : ∀ a, key (f a) = key a) (k : κ) (rows : List α) :
    lookup key k (modify key k f rows) = (lookup key k rows).map f := by
  rw [lookup_modify hf]
  cases h : lookup key k rows with
  | none => rfl
  | some a => simp [(lookup_eq_some_mem h).2]

/-- A row that is written over its own key is the row of that key. -/
theorem lookup_modify_to {f : α → α} {k : κ} (hf : ∀ a, key a = k → key (f a) = k)
    (rows : List α) : lookup key k (modify key k f rows) = (lookup key k rows).map f := by
  induction rows with
  | nil => rfl
  | cons a rows ih =>
    change lookup key k ((if key a = k then f a else a) :: modify key k f rows) = _
    by_cases h : key a = k
    · simp [lookup_cons, h, hf a h]
    · simp [lookup_cons, h, ih]

theorem lookup_modify_ne {f : α → α} (hf : ∀ a, key (f a) = key a) {k l : κ} (hkl : l ≠ k)
    (rows : List α) : lookup key l (modify key k f rows) = lookup key l rows := by
  rw [lookup_modify hf]
  cases h : lookup key l rows with
  | none => rfl
  | some a => simp [(lookup_eq_some_mem h).2, hkl]

theorem modify_of_lookup_eq_none {k : κ} {f : α → α} {rows : List α} (h : lookup key k rows = none) :
    modify key k f rows = rows := by
  conv_rhs => rw [← List.map_id rows]
  exact List.map_congr_left fun a ha => by simp [lookup_eq_none.mp h a ha]

/-- Rows that leave the table and do not have the key are not missed. -/
theorem lookup_filter {k : κ} {p : α → Bool} {rows : List α}
    (hp : ∀ a ∈ rows, key a = k → p a = true) : lookup key k (rows.filter p) = lookup key k rows := by
  induction rows with
  | nil => rfl
  | cons a rows ih =>
    have ih := ih fun b hb => hp b (List.mem_cons_of_mem a hb)
    by_cases ha : p a = true
    · rw [List.filter_cons_of_pos ha, lookup_cons, lookup_cons, ih]
    · have hk : key a ≠ k := fun hk => ha (hp a List.mem_cons_self hk)
      rw [List.filter_cons_of_neg ha, lookup_cons, if_neg hk, ih]

theorem modify_id (k : κ) (rows : List α) : modify key k id rows = rows := by
  simp [modify]

theorem lookup_remove_self (k : κ) (rows : List α) : lookup key k (remove key k rows) = none :=
  lookup_eq_none.mpr fun _ ha => (mem_remove.mp ha).2

theorem lookup_remove_ne {k l : κ} (hkl : l ≠ k) (rows : List α) :
    lookup key l (remove key k rows) = lookup key l rows :=
  lookup_filter fun a _ ha => by simpa [ha] using hkl

section Parts

-- A statement that only reaches rows outside a part of the table leaves that part as it is.

variable {k : κ} {p : α → Bool} {rows : List α}

theorem filter_append_single {a : α} (ha : p a = false) : (rows ++ [a]).filter p = rows.filter p := by
  rw [List.filter_append, List.filter_cons_of_neg (by rw [ha]; exact Bool.false_ne_true),
    List.filter_nil, List.append_nil]

theorem filter_modify {f : α → α}
    (h : ∀ a ∈ rows, key a = k → p a = false ∧ p (f a) = false) :
    (modify key k f rows).filter p = rows.filter p := by
  induction rows with
  | nil => rfl
  | cons a rows ih =>
    have ih := ih fun b hb => h b (List.mem_cons_of_mem a hb)
    change ((if key a = k then f a else a) :: modify key k f rows).filter p = _
    by_cases ha : key a = k
    · obtain ⟨hbefore, hafter⟩ := h a List.mem_cons_self ha
      rw [if_pos ha, List.filter_cons, List.filter_cons, hbefore, hafter, ih]
      rfl
    · rw [if_neg ha, List.filter_cons, List.filter_cons, ih]

theorem filter_remove (h : ∀ a ∈ rows, key a = k → p a = false) :
    (remove key k rows).filter p = rows.filter p := by
  rw [remove, List.filter_filter]
  apply List.filter_congr
  intro a ha
  by_cases hk : key a = k
  · simp [h a ha hk]
  · simp [hk]

end Parts

end Table
