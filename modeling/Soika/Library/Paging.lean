import Mathlib.Data.List.Perm.Basic
import Mathlib.Data.List.Nodup
import Soika.Library.Ranking

/-! # Pages of a sorted list

The rows of a query come sorted, and rows that the order leaves equal come in any order, in each query
anew. The pages of such queries give every row once exactly when no rows that the order leaves equal
stand on both sides of the end of a page.
-/

namespace Ranking

variable {α : Type} (le : α → α → Bool)

structure Listing (l rows : List α) : Prop where
  perm : rows.Perm l
  sorted : rows.Pairwise fun a b => le a b = true

/-- The first pages of a given size, each cut out of the listing of its own query. -/
def pages (size : ℕ) (listings : ℕ → List α) (count : ℕ) : List α :=
  (List.range count).flatMap fun k => ((listings k).drop (k * size)).take size

/-- The number of elements that do not stand strictly behind this one. -/
def upTo (l : List α) (a : α) : ℕ := l.countP fun b => le b a

/-- Elements that the order leaves equal to this one stand on both sides of a position. -/
def Straddles (l : List α) (a : α) (position : ℕ) : Prop :=
  rank le l a < position ∧ position < upTo le l a

variable {le}

@[simp] theorem pages_zero (size : ℕ) (listings : ℕ → List α) : pages size listings 0 = [] := rfl

theorem pages_succ (size : ℕ) (listings : ℕ → List α) (count : ℕ) :
    pages size listings (count + 1) =
      pages size listings count ++ ((listings count).drop (count * size)).take size := by
  simp [pages, List.range_succ]

theorem pages_sublist (size : ℕ) (listings : ℕ → List α) {count count' : ℕ} (h : count ≤ count') :
    (pages size listings count).Sublist (pages size listings count') := by
  induction h with
  | refl => exact List.Sublist.refl _
  | step h ih =>
    rw [pages_succ]
    exact ih.trans (List.sublist_append_left ..)

theorem mem_page {rows : List α} {start size i : ℕ} {a : α} (hi : rows[i]? = some a)
    (hstart : start ≤ i) (hend : i < start + size) : a ∈ (rows.drop start).take size := by
  refine List.mem_of_getElem? (i := i - start) ?_
  rw [List.getElem?_take_of_lt (by omega), List.getElem?_drop, Nat.add_sub_cancel' hstart]
  exact hi

namespace Listing

variable {l rows rows' : List α}

/-- An element of a listing stands behind those before it, and no further than those equal to it. -/
theorem position (hle : TotalPreorder le) (h : Listing le l rows) {i : ℕ} (hi : i < rows.length) :
    rank le l rows[i] ≤ i ∧ i < upTo le l rows[i] := by
  have hsorted := List.pairwise_iff_getElem.mp h.sorted
  have hrefl : ∀ a, le a a = true := fun a => by simpa using hle.total a a
  have hsplit : rows = rows.take i ++ rows.drop i := (List.take_append_drop i rows).symm
  have hsplit' : rows = rows.take (i + 1) ++ rows.drop (i + 1) :=
    (List.take_append_drop (i + 1) rows).symm
  constructor
  · have hlater : (rows.drop i).countP (fun b => before le b rows[i]) = 0 := by
      refine List.countP_eq_zero.mpr fun b hb => ?_
      obtain ⟨j, hj, rfl⟩ := List.mem_iff_getElem.mp hb
      rw [List.length_drop] at hj
      have hlt : i + j < rows.length := by omega
      rw [List.getElem_drop]
      have hij : le rows[i] rows[i + j] = true := by
        rcases Nat.eq_zero_or_pos j with rfl | hpos
        · exact hrefl _
        · exact hsorted i (i + j) hi (by omega) (by omega)
      simp [before, hij]
    calc rank le l rows[i]
        = rows.countP (fun b => before le b rows[i]) := (rank_perm h.perm _).symm
      _ = (rows.take i).countP (fun b => before le b rows[i]) +
            (rows.drop i).countP (fun b => before le b rows[i]) := by
          rw [← List.countP_append, ← hsplit]
      _ = (rows.take i).countP (fun b => before le b rows[i]) := by rw [hlater, Nat.add_zero]
      _ ≤ (rows.take i).length := List.countP_le_length
      _ ≤ i := by rw [List.length_take]; exact Nat.min_le_left ..
  · have hearlier : (rows.take (i + 1)).countP (fun b => le b rows[i]) = i + 1 := by
      have hall : ∀ b ∈ rows.take (i + 1), le b rows[i] = true := by
        intro b hb
        obtain ⟨j, hj, rfl⟩ := List.mem_iff_getElem.mp hb
        rw [List.length_take] at hj
        rw [List.getElem_take]
        rcases Nat.eq_or_lt_of_le (show j ≤ i by omega) with rfl | hlt
        · exact hrefl _
        · exact hsorted j i (by omega) hi hlt
      rw [List.countP_eq_length.mpr hall, List.length_take]
      omega
    calc i < (rows.take (i + 1)).countP (fun b => le b rows[i]) := by omega
      _ ≤ (rows.take (i + 1)).countP (fun b => le b rows[i]) +
            (rows.drop (i + 1)).countP (fun b => le b rows[i]) := Nat.le_add_right ..
      _ = rows.countP (fun b => le b rows[i]) := by rw [← List.countP_append, ← hsplit']
      _ = upTo le l rows[i] := h.perm.countP_eq _

/-- A list whose first elements are those with a property is cut by the property. -/
theorem take_eq_filter {p : α → Bool} {rows : List α} {n : ℕ}
    (h : ∀ i (hi : i < rows.length), p rows[i] = true ↔ i < n) : rows.take n = rows.filter p := by
  induction rows generalizing n with
  | nil => simp
  | cons a rows ih =>
    have hhead := h 0 (Nat.zero_lt_succ _)
    rw [List.getElem_cons_zero] at hhead
    cases n with
    | zero =>
      rw [List.take_zero, List.filter_cons_of_neg (fun ha => Nat.lt_irrefl 0 (hhead.mp ha)),
        ← ih (n := 0) fun i hi => by simpa using h (i + 1) (Nat.succ_lt_succ hi), List.take_zero]
    | succ n =>
      rw [List.take_succ_cons, List.filter_cons_of_pos (hhead.mpr (Nat.zero_lt_succ n)),
        ← ih (n := n) fun i hi => by simpa using h (i + 1) (Nat.succ_lt_succ hi)]

/-- Where no equal elements stand on both sides, every listing has the same elements in front. -/
theorem take_perm (hle : TotalPreorder le) (h : Listing le l rows) (h' : Listing le l rows')
    {n : ℕ} (hn : ∀ a ∈ l, ¬ Straddles le l a n) : (rows.take n).Perm (rows'.take n) := by
  have hcut : ∀ {rows : List α}, Listing le l rows →
      rows.take n = rows.filter fun a => decide (rank le l a < n) := by
    intro rows h
    refine take_eq_filter fun i hi => ?_
    obtain ⟨hrank, hup⟩ := h.position hle hi
    have hmem : rows[i] ∈ l := h.perm.mem_iff.mp (List.getElem_mem hi)
    have hstraddle := hn _ hmem
    rw [decide_eq_true_eq]
    constructor
    · intro hlt
      by_contra hge
      exact hstraddle ⟨hlt, by omega⟩
    · intro hlt
      omega
  rw [hcut h, hcut h']
  exact (h.perm.trans h'.perm.symm).filter _

end Listing

/-- Pages that no equal elements straddle give the elements in front of the end of the last one. -/
theorem pages_perm (hle : TotalPreorder le) {l : List α} {size : ℕ} {listings : ℕ → List α}
    (h : ∀ k, Listing le l (listings k)) (hsize : ∀ a ∈ l, ∀ k, ¬ Straddles le l a (k * size))
    {rows : List α} (hrows : Listing le l rows) (count : ℕ) :
    (pages size listings count).Perm (rows.take (count * size)) := by
  induction count with
  | zero => simp
  | succ count ih =>
    have hfront := ih.trans (hrows.take_perm hle (h count) fun a ha => hsize a ha count)
    rw [pages_succ, Nat.succ_mul]
    refine (hfront.append_right _).trans ?_
    rw [← List.take_add]
    refine (h count).take_perm hle hrows fun a ha => ?_
    have := hsize a ha (count + 1)
    rwa [Nat.succ_mul] at this

theorem listing_mergeSort (hle : TotalPreorder le) (l : List α) : Listing le l (l.mergeSort le) :=
  ⟨List.mergeSort_perm l le, List.pairwise_mergeSort hle.trans hle.total l⟩

theorem Listing.tied (hle : TotalPreorder le) {l rows : List α} (h : Listing le l rows) {a : α}
    {i : ℕ} (hi : i < rows.length) (hrank : rank le l a ≤ i) (hup : i < upTo le l a) :
    le rows[i] a = true ∧ le a rows[i] = true := by
  obtain ⟨hrank', hup'⟩ := h.position hle hi
  constructor
  · by_contra hlate
    have hbefore : ∀ b, le b a = true → before le b rows[i] = true := by
      intro b hb
      have hab := hle.total rows[i] a
      have hai : le a rows[i] = true := by simpa [hlate] using hab
      simp only [before, Bool.and_eq_true, Bool.not_eq_true']
      refine ⟨hle.trans _ _ _ hb hai, ?_⟩
      by_contra hib
      exact hlate (hle.trans _ _ _ (by simpa using hib) hb)
    have : upTo le l a ≤ rank le l rows[i] := List.countP_mono_left fun b _ hb => hbefore b hb
    omega
  · by_contra hearly
    have hbefore : ∀ b, le b rows[i] = true → before le b a = true := by
      intro b hb
      have hab := hle.total rows[i] a
      have hia : le rows[i] a = true := by simpa [hearly] using hab
      simp only [before, Bool.and_eq_true, Bool.not_eq_true']
      refine ⟨hle.trans _ _ _ hb hia, ?_⟩
      by_contra hba
      exact hearly (hle.trans _ _ _ (by simpa using hba) hb)
    have : upTo le l rows[i] ≤ rank le l a := List.countP_mono_left fun b _ hb => hbefore b hb
    omega

/-- Two neighbours that the order leaves equal may change places. -/
theorem Listing.swap {l front back : List α} {x y : α}
    (h : Listing le l (front ++ x :: y :: back)) (hyx : le y x = true) :
    Listing le l (front ++ y :: x :: back) := by
  constructor
  · exact (List.Perm.append_left front (List.Perm.swap x y back)).trans h.perm
  · obtain ⟨hfront, hxy, hcross⟩ := List.pairwise_append.mp h.sorted
    obtain ⟨hx, hy⟩ := List.pairwise_cons.mp hxy
    obtain ⟨hy, hback⟩ := List.pairwise_cons.mp hy
    refine List.pairwise_append.mpr ⟨hfront, ?_, ?_⟩
    · refine List.pairwise_cons.mpr ⟨List.forall_mem_cons.mpr ⟨hyx, hy⟩, ?_⟩
      exact List.pairwise_cons.mpr ⟨fun b hb => hx b (List.mem_cons_of_mem y hb), hback⟩
    · intro a ha b hb
      refine hcross a ha b ?_
      simp only [List.mem_cons] at hb ⊢
      tauto

/-- The pages give every element once, however the queries list equal elements, exactly when no equal
elements stand on both sides of the end of a page. -/
theorem pages_perm_iff (hle : TotalPreorder le) {l : List α} (hnodup : l.Nodup) {size : ℕ}
    (hsize : 0 < size) :
    (∀ listings : ℕ → List α, (∀ k, Listing le l (listings k)) → ∀ count,
      l.length ≤ count * size → (pages size listings count).Perm l) ↔
      ∀ a ∈ l, ∀ k, ¬ Straddles le l a (k * size) := by
  have hsorted := listing_mergeSort hle l
  constructor
  · rintro h a ha k ⟨hlow, hhigh⟩
    set rows := l.mergeSort le with hrows
    have hlen : rows.length = l.length := hsorted.perm.length_eq
    have hup : upTo le l a ≤ l.length := List.countP_le_length
    obtain ⟨n, hn⟩ : ∃ n, k * size = n + 1 := ⟨k * size - 1, by omega⟩
    rw [hn] at hlow hhigh
    -- the element behind the end of the page takes the place of the one in front of it
    have hx := hsorted.tied hle (a := a) (i := n) (by omega) (by omega) (by omega)
    have hy := hsorted.tied hle (a := a) (i := n + 1) (by omega) (by omega) (by omega)
    have hsplit : rows = rows.take n ++ rows[n] :: rows[n + 1] :: rows.drop (n + 2) := by
      rw [← List.drop_eq_getElem_cons, ← List.drop_eq_getElem_cons, List.take_append_drop]
    have hswap : Listing le l (rows.take n ++ rows[n + 1] :: rows[n] :: rows.drop (n + 2)) := by
      refine Listing.swap ?_ (hle.trans _ _ _ hy.1 hx.2)
      rw [← hsplit]
      exact hsorted
    set rows' := rows.take n ++ rows[n + 1] :: rows[n] :: rows.drop (n + 2) with hrows'
    let listings : ℕ → List α := fun j => if j = k then rows' else rows
    have hlistings : ∀ j, Listing le l (listings j) := by
      intro j
      change Listing le l (if j = k then rows' else rows)
      split
      · exact hswap
      · exact hsorted
    have hpos : 0 < k := by
      rcases Nat.eq_zero_or_pos k with rfl | hpos
      · omega
      · exact hpos
    obtain ⟨j, rfl⟩ : ∃ j, k = j + 1 := ⟨k - 1, by omega⟩
    rw [Nat.succ_mul] at hn
    have hfirst : rows[n] ∈ pages size listings (j + 1) := by
      rw [pages_succ, List.mem_append]
      right
      have hj : listings j = rows := if_neg (by omega)
      rw [hj]
      exact mem_page (List.getElem?_eq_getElem (by omega)) (by omega) (by omega)
    have hsecond : rows[n] ∈ ((listings (j + 1)).drop ((j + 1) * size)).take size := by
      have hj : listings (j + 1) = rows' := if_pos rfl
      rw [hj]
      refine mem_page (i := n + 1) ?_ (by rw [Nat.succ_mul]; omega) (by rw [Nat.succ_mul]; omega)
      rw [hrows', List.getElem?_append_right (by rw [List.length_take]; omega), List.length_take,
        Nat.min_eq_left (by omega), Nat.add_sub_cancel_left]
      rfl
    have hcount : l.length ≤ (j + 1 + 1 + l.length) * size :=
      Nat.le_trans (Nat.le_add_left _ _) (Nat.le_mul_of_pos_right _ hsize)
    have hall := (h listings hlistings (j + 1 + 1 + l.length) hcount).nodup_iff.mpr hnodup
    have honce := hall.sublist (pages_sublist size listings (Nat.le_add_right (j + 1 + 1) l.length))
    rw [pages_succ] at honce
    exact (List.nodup_append.mp honce).2.2 _ hfirst _ hsecond rfl
  · intro h listings hlistings count hcount
    refine (pages_perm hle hlistings h hsorted count).trans ?_
    rw [List.take_of_length_le (by rw [hsorted.perm.length_eq]; exact hcount)]
    exact hsorted.perm

end Ranking
