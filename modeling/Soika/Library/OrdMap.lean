import Mathlib.Data.List.Forall2
import Mathlib.Data.List.Nodup
import Mathlib.Data.String.Basic
import Mathlib.Order.Defs.LinearOrder
import Mathlib.Tactic.SplitIfs

/-! # Ordered maps

A map is the list of its entries in the order of their keys, so equal maps have equal
entries and a traversal meets the keys in order.
-/

/-- Entries with increasing keys. -/
@[ext]
structure OrdMap (κ ν : Type) [LinearOrder κ] where
  entries : List (κ × ν)
  sorted : entries.Pairwise fun a b => a.1 < b.1

namespace OrdMap

variable {κ ν μ ε : Type} [LinearOrder κ]

instance [DecidableEq ν] : DecidableEq (OrdMap κ ν) := fun m n =>
  decidable_of_iff (m.entries = n.entries) ⟨OrdMap.ext, fun h => h ▸ rfl⟩

def empty : OrdMap κ ν := ⟨[], .nil⟩

def get (m : OrdMap κ ν) (k : κ) : Option ν := (m.entries.find? fun e => e.1 = k).map Prod.snd

def containsKey (m : OrdMap κ ν) (k : κ) : Bool := (m.get k).isSome

def size (m : OrdMap κ ν) : ℕ := m.entries.length

def insertEntry (k : κ) (v : ν) : List (κ × ν) → List (κ × ν)
  | [] => [(k, v)]
  | e :: es =>
    if k = e.1 then (k, v) :: es
    else if k < e.1 then (k, v) :: e :: es
    else e :: insertEntry k v es

theorem mem_insertEntry {k : κ} {v : ν} {es : List (κ × ν)} {e : κ × ν}
    (h : e ∈ insertEntry k v es) : e = (k, v) ∨ e ∈ es := by
  induction es with
  | nil => exact .inl (List.mem_singleton.mp h)
  | cons d es ih =>
    rw [insertEntry] at h
    split_ifs at h with hk hlt
    · rcases List.mem_cons.mp h with rfl | h
      · exact .inl rfl
      · exact .inr (List.mem_cons_of_mem d h)
    · exact (List.mem_cons.mp h).imp_right id
    · rcases List.mem_cons.mp h with rfl | h
      · exact .inr List.mem_cons_self
      · exact (ih h).imp_right (List.mem_cons_of_mem d)

theorem sorted_insertEntry {k : κ} {v : ν} {es : List (κ × ν)}
    (h : es.Pairwise fun a b => a.1 < b.1) :
    (insertEntry k v es).Pairwise fun a b => a.1 < b.1 := by
  induction es with
  | nil => exact List.pairwise_singleton _ _
  | cons d es ih =>
    obtain ⟨hd, hes⟩ := List.pairwise_cons.mp h
    rw [insertEntry]
    split_ifs with hk hlt
    · exact List.pairwise_cons.mpr ⟨fun e he => hk ▸ hd e he, hes⟩
    · refine List.pairwise_cons.mpr ⟨fun e he => ?_, h⟩
      rcases List.mem_cons.mp he with rfl | he
      · exact hlt
      · exact hlt.trans (hd e he)
    · refine List.pairwise_cons.mpr ⟨fun e he => ?_, ih hes⟩
      rcases mem_insertEntry he with rfl | he
      · exact lt_of_le_of_ne (not_lt.mp hlt) (Ne.symm hk)
      · exact hd e he

def insert (m : OrdMap κ ν) (k : κ) (v : ν) : OrdMap κ ν :=
  ⟨insertEntry k v m.entries, sorted_insertEntry m.sorted⟩

/-- `extend`: insert entries one by one. -/
def extend (m : OrdMap κ ν) (es : List (κ × ν)) : OrdMap κ ν :=
  es.foldl (fun m e => m.insert e.1 e.2) m

def ofList (es : List (κ × ν)) : OrdMap κ ν := empty.extend es

/-- Apply a fallible function to the values, in the order of their keys. -/
def mapEntries (f : ν → Except ε μ) : List (κ × ν) → Except ε (List (κ × μ))
  | [] => .ok []
  | (k, v) :: es => do
    let w ← f v
    let ws ← mapEntries f es
    return (k, w) :: ws

omit [LinearOrder κ] in
theorem mapEntries_eq_ok {f : ν → Except ε μ} {es : List (κ × ν)} {ws : List (κ × μ)} :
    mapEntries f es = .ok ws ↔ List.Forall₂ (fun e w => e.1 = w.1 ∧ f e.2 = .ok w.2) es ws := by
  induction es generalizing ws with
  | nil => simp [mapEntries, List.forall₂_nil_left_iff, eq_comm]
  | cons e es ih =>
    obtain ⟨k, v⟩ := e
    constructor
    · intro h
      simp only [mapEntries] at h
      cases hv : f v with
      | error e => rw [hv] at h; cases h
      | ok w =>
        rw [hv] at h
        cases hes : mapEntries f es with
        | error e => rw [hes] at h; cases h
        | ok ws' =>
          rw [hes] at h
          cases h
          exact .cons ⟨rfl, hv⟩ (ih.mp hes)
    · rintro (_ | @⟨_, ⟨k', w⟩, _, ws, ⟨rfl, hv⟩, hes⟩)
      simp only [mapEntries, hv, ih.mpr hes]
      rfl

theorem sorted_of_forall₂ {R : κ × ν → κ × μ → Prop} (hR : ∀ e w, R e w → e.1 = w.1)
    {es : List (κ × ν)} {ws : List (κ × μ)} (h : List.Forall₂ R es ws)
    (hs : es.Pairwise fun a b => a.1 < b.1) : ws.Pairwise fun a b => a.1 < b.1 := by
  have hkeys : es.map Prod.fst = ws.map Prod.fst := by
    induction h with
    | nil => rfl
    | cons hr _ ih =>
      rw [List.map_cons, List.map_cons, hR _ _ hr, ih (List.pairwise_cons.mp hs).2]
  have hs' : (es.map Prod.fst).Pairwise (· < ·) := List.pairwise_map.mpr hs
  rw [hkeys] at hs'
  exact List.pairwise_map.mp hs'

def mapM (f : ν → Except ε μ) (m : OrdMap κ ν) : Except ε (OrdMap κ μ) :=
  match h : mapEntries f m.entries with
  | .ok ws => .ok ⟨ws, sorted_of_forall₂ (fun _ _ hr => hr.1) (mapEntries_eq_ok.mp h) m.sorted⟩
  | .error e => .error e

/-- `retain`: keep the entries with `p`. -/
def retain (p : ν → Bool) (m : OrdMap κ ν) : OrdMap κ ν :=
  ⟨m.entries.filter fun e => p e.2, m.sorted.filter _⟩

/-- `remove`: drop the entry of a key. -/
def erase (m : OrdMap κ ν) (k : κ) : OrdMap κ ν :=
  ⟨m.entries.filter fun e => e.1 ≠ k, m.sorted.filter _⟩

theorem eq_of_key {m : OrdMap κ ν} {d e : κ × ν} (hd : d ∈ m.entries) (he : e ∈ m.entries)
    (hk : d.1 = e.1) : d = e := by
  have hnodup : (m.entries.map Prod.fst).Nodup :=
    List.pairwise_map.mpr (m.sorted.imp fun h => ne_of_lt h)
  exact List.inj_on_of_nodup_map hnodup hd he hk

theorem get_eq_some_iff {m : OrdMap κ ν} {k : κ} {v : ν} :
    m.get k = some v ↔ (k, v) ∈ m.entries := by
  constructor
  · intro h
    obtain ⟨e, he, rfl⟩ := Option.map_eq_some_iff.mp h
    obtain rfl : e.1 = k := by simpa using List.find?_some he
    exact List.mem_of_find?_eq_some he
  · intro h
    cases hf : m.entries.find? fun e => e.1 = k with
    | none => exact absurd (List.find?_eq_none.mp hf _ h) (by simp)
    | some e =>
      have hk : e.1 = k := by simpa using List.find?_some hf
      obtain rfl := eq_of_key (List.mem_of_find?_eq_some hf) h hk
      simp [get, hf]

theorem find?_insertEntry (k k' : κ) (v : ν) (es : List (κ × ν)) :
    (insertEntry k v es).find? (fun e => e.1 = k') =
      if k' = k then some (k, v) else es.find? fun e => e.1 = k' := by
  induction es with
  | nil => by_cases h : k' = k <;> simp [insertEntry, h, eq_comm]
  | cons e es ih =>
    rw [insertEntry]
    by_cases h : k' = k
    · subst h
      simp only [if_true] at ih ⊢
      split_ifs with hk hlt
      · simp
      · simp
      · simpa [Ne.symm hk] using ih
    · simp only [h, if_false] at ih ⊢
      split_ifs with hk hlt
      · simp [Ne.symm h, ← hk]
      · simp [Ne.symm h]
      · simp only [List.find?_cons, ih]

theorem get_insert (m : OrdMap κ ν) (k k' : κ) (v : ν) :
    (m.insert k v).get k' = if k' = k then some v else m.get k' := by
  unfold get insert
  rw [find?_insertEntry]
  split_ifs <;> rfl

theorem mem_insert_iff {m : OrdMap κ ν} {k : κ} {v : ν} {e : κ × ν} :
    e ∈ (m.insert k v).entries ↔ e = (k, v) ∨ e ∈ m.entries ∧ e.1 ≠ k := by
  obtain ⟨k', v'⟩ := e
  rw [← get_eq_some_iff, ← get_eq_some_iff, get_insert]
  split_ifs with h
  · simp [h, eq_comm]
  · simp [h]

theorem mem_extend {m : OrdMap κ ν} {es : List (κ × ν)} {e : κ × ν}
    (h : e ∈ (m.extend es).entries) : e ∈ m.entries ∨ e ∈ es := by
  induction es generalizing m with
  | nil => exact .inl h
  | cons d es ih =>
    rcases ih h with h | h
    · rcases mem_insert_iff.mp h with rfl | h
      · exact .inr List.mem_cons_self
      · exact .inl h.1
    · exact .inr (List.mem_cons_of_mem d h)

/-- A map extended with another one has the entries of both, those of the other one first. -/
theorem get_extend (m n : OrdMap κ ν) (k : κ) :
    (m.extend n.entries).get k = (n.get k).or (m.get k) := by
  obtain ⟨es, hs⟩ := n
  induction es generalizing m with
  | nil => rfl
  | cons e es ih =>
    obtain ⟨he, hes⟩ := List.pairwise_cons.mp hs
    have hrec := ih (m.insert e.1 e.2) hes
    rw [get_insert] at hrec
    refine hrec.trans ?_
    by_cases hk : k = e.1
    · subst hk
      have hnone : es.find? (fun d => d.1 = e.1) = none := by
        rw [List.find?_eq_none]
        intro d hd
        simpa using ne_of_gt (he d hd)
      simp [hnone, get]
    · simp [hk, get, Ne.symm hk]

theorem exists_get_extend {m : OrdMap κ ν} {es : List (κ × ν)} {k : κ}
    (h : (∃ v, m.get k = some v) ∨ k ∈ es.map Prod.fst) : ∃ v, (m.extend es).get k = some v := by
  induction es generalizing m with
  | nil => exact h.resolve_right List.not_mem_nil
  | cons e es ih =>
    refine ih ?_
    rw [get_insert]
    by_cases hk : k = e.1
    · exact .inl ⟨e.2, if_pos hk⟩
    · rw [if_neg hk]
      rw [List.map_cons, List.mem_cons] at h
      exact h.imp_right fun h => h.resolve_left hk

theorem get_extend_of_notMem {m : OrdMap κ ν} {es : List (κ × ν)} {k : κ}
    (h : k ∉ es.map Prod.fst) : (m.extend es).get k = m.get k := by
  induction es generalizing m with
  | nil => rfl
  | cons e es ih =>
    rw [List.map_cons, List.mem_cons, not_or] at h
    exact (ih h.2).trans ((get_insert ..).trans (if_neg h.1))

theorem get_extend_eq_some_iff {m : OrdMap κ ν} {es : List (κ × ν)} {k : κ} {v : ν} :
    (m.extend es).get k = some v ↔
      (∃ before after, es = before ++ (k, v) :: after ∧ k ∉ after.map Prod.fst) ∨
        k ∉ es.map Prod.fst ∧ m.get k = some v := by
  induction es generalizing m with
  | nil => simp [extend]
  | cons e es ih =>
    refine (ih (m := m.insert e.1 e.2)).trans ?_
    rw [get_insert]
    constructor
    · rintro (⟨before, after, rfl, hlast⟩ | ⟨hnot, hget⟩)
      · exact .inl ⟨e :: before, after, rfl, hlast⟩
      · by_cases hk : k = e.1
        · rw [if_pos hk] at hget
          cases hget
          exact .inl ⟨[], es, by rw [hk]; rfl, hnot⟩
        · rw [if_neg hk] at hget
          exact .inr ⟨by simpa [hk] using hnot, hget⟩
    · rintro (⟨before, after, hes, hlast⟩ | ⟨hnot, hget⟩)
      · cases before with
        | nil =>
          obtain ⟨rfl, rfl⟩ := List.cons.inj hes
          exact .inr ⟨hlast, if_pos rfl⟩
        | cons d before =>
          obtain ⟨rfl, rfl⟩ := List.cons.inj hes
          exact .inl ⟨before, after, rfl, hlast⟩
      · rw [List.map_cons, List.mem_cons, not_or] at hnot
        exact .inr ⟨hnot.2, (if_neg hnot.1).trans hget⟩

/-- An entry of a list with distinct keys is found in the map extended with the list. -/
theorem get_extend_of_mem {m : OrdMap κ ν} {es : List (κ × ν)} (hk : (es.map Prod.fst).Nodup)
    {k : κ} {v : ν} (h : (k, v) ∈ es) : (m.extend es).get k = some v := by
  induction es generalizing m with
  | nil => cases h
  | cons e es ih =>
    obtain ⟨hnew, hk⟩ := List.nodup_cons.mp hk
    rcases List.mem_cons.mp h with rfl | h
    · exact (get_extend_of_notMem hnew).trans ((get_insert ..).trans (if_pos rfl))
    · exact ih hk h

theorem get_retain (p : ν → Bool) (m : OrdMap κ ν) (k : κ) :
    (m.retain p).get k = (m.get k).filter p := by
  ext v
  rw [get_eq_some_iff, Option.filter_eq_some_iff, get_eq_some_iff]
  simp [retain]

theorem get_erase (m : OrdMap κ ν) (k l : κ) :
    (m.erase k).get l = if l = k then none else m.get l := by
  ext v
  rw [get_eq_some_iff]
  split_ifs with h
  · simp [erase, h]
  · rw [get_eq_some_iff]
    simp [erase, h]

theorem size_retain_lt {p : ν → Bool} {m : OrdMap κ ν} {k : κ} {v : ν} (h : m.get k = some v)
    (hv : p v = false) : (m.retain p).size < m.size :=
  List.length_filter_lt_length_iff_exists.mpr ⟨(k, v), get_eq_some_iff.mp h, by simp [hv]⟩

theorem containsKey_iff {m : OrdMap κ ν} {k : κ} :
    m.containsKey k = true ↔ ∃ v, (k, v) ∈ m.entries := by
  simp [containsKey, Option.isSome_iff_exists, get_eq_some_iff]

theorem length_insertEntry (k : κ) (v : ν) (es : List (κ × ν)) :
    (insertEntry k v es).length ≤ es.length + 1 := by
  induction es with
  | nil => exact le_rfl
  | cons e es ih =>
    rw [insertEntry]
    split_ifs
    · simp
    · simp
    · simpa using ih

theorem length_insertEntry_new {k : κ} (v : ν) {es : List (κ × ν)} (h : ∀ e ∈ es, e.1 ≠ k) :
    (insertEntry k v es).length = es.length + 1 := by
  induction es with
  | nil => rfl
  | cons e es ih =>
    have ih := ih fun d hd => h d (List.mem_cons_of_mem e hd)
    rw [insertEntry, if_neg (Ne.symm (h e List.mem_cons_self))]
    split_ifs
    · rfl
    · simpa using ih

theorem length_insertEntry_old {k : κ} (v : ν) {es : List (κ × ν)}
    (hs : es.Pairwise fun a b => a.1 < b.1) (h : ∃ e ∈ es, e.1 = k) :
    (insertEntry k v es).length = es.length := by
  induction es with
  | nil => simp at h
  | cons e es ih =>
    obtain ⟨he, hes⟩ := List.pairwise_cons.mp hs
    obtain ⟨d, hd, rfl⟩ := h
    rw [insertEntry]
    rcases List.mem_cons.mp hd with rfl | hd
    · rw [if_pos rfl]
      rfl
    · rw [if_neg (ne_of_gt (he d hd)), if_neg (lt_asymm (he d hd))]
      simpa using ih hes ⟨d, hd, rfl⟩

theorem size_insert_le (m : OrdMap κ ν) (k : κ) (v : ν) : (m.insert k v).size ≤ m.size + 1 :=
  length_insertEntry ..

theorem size_insert_new {m : OrdMap κ ν} {k : κ} (h : m.get k = none) (v : ν) :
    (m.insert k v).size = m.size + 1 := by
  refine length_insertEntry_new v fun e he hk => ?_
  have := get_eq_some_iff.mpr he
  rw [hk, h] at this
  cases this

theorem size_insert_old {m : OrdMap κ ν} {k : κ} (h : m.containsKey k = true) (v : ν) :
    (m.insert k v).size = m.size := by
  obtain ⟨w, hw⟩ := containsKey_iff.mp h
  exact length_insertEntry_old v m.sorted ⟨_, hw, rfl⟩

theorem mapM_eq_ok {f : ν → Except ε μ} {m : OrdMap κ ν} {n : OrdMap κ μ} :
    m.mapM f = .ok n ↔
      List.Forall₂ (fun e w => e.1 = w.1 ∧ f e.2 = .ok w.2) m.entries n.entries := by
  unfold mapM
  split
  · rename_i ws h
    rw [Except.ok.injEq, OrdMap.ext_iff]
    constructor
    · rintro rfl
      exact mapEntries_eq_ok.mp h
    · intro hn
      rw [mapEntries_eq_ok.mpr hn] at h
      exact (Except.ok.inj h).symm
  · rename_i e h
    refine ⟨nofun, fun hn => ?_⟩
    rw [mapEntries_eq_ok.mpr hn] at h
    cases h

omit [LinearOrder κ] in
theorem exists_mem_of_forall₂ {α β : Type} {R : α → β → Prop} {as : List α} {bs : List β}
    (h : List.Forall₂ R as bs) {a : α} (ha : a ∈ as) : ∃ b ∈ bs, R a b := by
  induction h with
  | nil => exact absurd ha List.not_mem_nil
  | @cons a' b as bs hab _ ih =>
    rcases List.mem_cons.mp ha with rfl | ha
    · exact ⟨b, List.mem_cons_self, hab⟩
    · obtain ⟨c, hc, hac⟩ := ih ha
      exact ⟨c, List.mem_cons_of_mem b hc, hac⟩

theorem get_mapM {f : ν → Except ε μ} {m : OrdMap κ ν} {n : OrdMap κ μ} (h : m.mapM f = .ok n)
    {k : κ} {v : ν} (hk : m.get k = some v) : ∃ w, f v = .ok w ∧ n.get k = some w := by
  obtain ⟨⟨k', w⟩, hmem, rfl, hw⟩ :=
    exists_mem_of_forall₂ (mapM_eq_ok.mp h) (get_eq_some_iff.mp hk)
  exact ⟨w, hw, get_eq_some_iff.mpr hmem⟩

theorem exists_get_of_mapM {f : ν → Except ε μ} {m : OrdMap κ ν} {n : OrdMap κ μ}
    (h : m.mapM f = .ok n) {k : κ} {w : μ} (hk : n.get k = some w) :
    ∃ v, m.get k = some v ∧ f v = .ok w := by
  obtain ⟨⟨k', v⟩, hmem, rfl, hv⟩ :=
    exists_mem_of_forall₂ (mapM_eq_ok.mp h).flip (get_eq_some_iff.mp hk)
  exact ⟨v, get_eq_some_iff.mpr hmem, hv⟩

theorem exists_mapM_iff {f : ν → Except ε μ} {m : OrdMap κ ν} :
    (∃ n, m.mapM f = .ok n) ↔ ∀ e ∈ m.entries, ∃ w, f e.2 = .ok w := by
  constructor
  · rintro ⟨n, hn⟩ e he
    obtain ⟨w, hw, -⟩ := get_mapM hn (get_eq_some_iff.mpr he)
    exact ⟨w, hw⟩
  · intro h
    have hlist : ∀ es : List (κ × ν), (∀ e ∈ es, ∃ w, f e.2 = .ok w) →
        ∃ ws, mapEntries f es = .ok ws := by
      intro es
      induction es with
      | nil => exact fun _ => ⟨[], rfl⟩
      | cons e es ih =>
        intro hes
        obtain ⟨w, hw⟩ := hes e List.mem_cons_self
        obtain ⟨ws, hws⟩ := ih fun d hd => hes d (List.mem_cons_of_mem e hd)
        exact ⟨(e.1, w) :: ws, by simp only [mapEntries, hw, hws]; rfl⟩
    obtain ⟨ws, hws⟩ := hlist m.entries h
    have hws' := mapEntries_eq_ok.mp hws
    exact ⟨⟨ws, sorted_of_forall₂ (fun _ _ hr => hr.1) hws' m.sorted⟩, mapM_eq_ok.mpr hws'⟩

end OrdMap
