import Mathlib.Data.List.Infix

/-! # Texts with delimited references

A reference is an opening delimiter, a name and a closing delimiter. A scan from the left takes each
reference from the first opening to the first closing after it. What such a scan finds can be told
from the occurrences of the delimiters alone.
-/

namespace Delimited

variable {α : Type*}

/-- The pattern first occurs in the text between these two parts of it. -/
structure First (pat s before after : List α) : Prop where
  eq : s = before ++ pat ++ after
  le : ∀ b a, s = b ++ pat ++ a → before.length ≤ b.length

section Occurrences

variable {s b p a b' q a' : List α}

/-- A text in two ways, the first part of one being at most as long as that of the other. -/
theorem exists_append_of_le {u v : List α} (h : u ++ v = b ++ a) (hle : u.length ≤ b.length) :
    ∃ c, b = u ++ c ∧ v = c ++ a := by
  obtain ⟨c, hc⟩ : u <+: b :=
    List.prefix_of_prefix_length_le (List.prefix_append u v) ⟨a, h.symm⟩ hle
  subst hc
  refine ⟨c, rfl, ?_⟩
  rw [List.append_assoc] at h
  exact List.append_cancel_left h

theorem parts_unique (h : s = b ++ p ++ a) (h' : s = b' ++ p ++ a') (hlen : b.length = b'.length) :
    b = b' ∧ a = a' := by
  obtain ⟨hfront, rfl⟩ := List.append_inj (h.symm.trans h') (by simp [hlen])
  exact ⟨List.append_cancel_right hfront, rfl⟩

theorem getElem?_of_eq (h : s = b ++ p ++ a) {i : ℕ} (hi : i < p.length) :
    s[b.length + i]? = some p[i] := by
  rw [h, List.append_assoc, List.getElem?_append_right (Nat.le_add_right ..),
    Nat.add_sub_cancel_left, List.getElem?_append_left hi, List.getElem?_eq_getElem hi]

theorem exists_mem_of_overlap (h : s = b ++ p ++ a) (h' : s = b' ++ q ++ a')
    (hb : b.length < b'.length + q.length) (hb' : b'.length < b.length + p.length)
    (hp : p ≠ []) (hq : q ≠ []) : ∃ x, x ∈ p ∧ x ∈ q := by
  have hp := List.length_pos_iff.mpr hp
  have hq := List.length_pos_iff.mpr hq
  rcases Nat.le_total b.length b'.length with hle | hle
  · have hlast := getElem?_of_eq h (i := b'.length - b.length) (by omega)
    have hhead := getElem?_of_eq h' hq
    rw [Nat.add_sub_cancel' hle] at hlast
    rw [Nat.add_zero, hlast, Option.some.injEq] at hhead
    exact ⟨q[0], hhead ▸ List.getElem_mem _, List.getElem_mem _⟩
  · have hlast := getElem?_of_eq h' (i := b.length - b'.length) (by omega)
    have hhead := getElem?_of_eq h hp
    rw [Nat.add_sub_cancel' hle] at hlast
    rw [Nat.add_zero, hlast, Option.some.injEq] at hhead
    exact ⟨p[0], List.getElem_mem _, hhead ▸ List.getElem_mem _⟩

end Occurrences

namespace First

variable {pat s before after b a : List α}

theorem unique (h : First pat s before after) (h' : First pat s b a) : before = b ∧ after = a :=
  parts_unique h.eq h'.eq (Nat.le_antisymm (h.le _ _ h'.eq) (h'.le _ _ h.eq))

theorem isInfix (h : First pat s before after) : pat <:+: s := ⟨before, after, h.eq.symm⟩

theorem nil (pat after : List α) : First pat (pat ++ after) [] after :=
  ⟨rfl, fun _ _ _ => Nat.zero_le _⟩

/-- The pattern does not start with the text, so it occurs first where it does in the rest. -/
theorem cons {c : α} (hc : ¬ pat <+: c :: s) (h : First pat s before after) :
    First pat (c :: s) (c :: before) after := by
  refine ⟨by rw [h.eq]; rfl, fun b a hba => ?_⟩
  cases b with
  | nil => exact absurd ⟨a, hba.symm⟩ hc
  | cons d b =>
    obtain ⟨rfl, hs⟩ := List.cons.inj hba
    exact Nat.succ_le_succ (h.le b a hs)

/-- A text that shares no letter with the pattern has no part in its occurrences. -/
theorem of_disjoint (hpat : pat ≠ []) (hdisjoint : before.Disjoint pat) :
    First pat (before ++ pat ++ after) before after := by
  refine ⟨rfl, fun b a hba => Nat.le_of_not_lt fun hlt => ?_⟩
  have hpos := List.length_pos_iff.mpr hpat
  have hbefore : before ≠ [] := List.ne_nil_of_length_pos (by omega)
  have hsplit : before ++ pat ++ after = [] ++ before ++ (pat ++ after) := by simp
  obtain ⟨x, hx, hx'⟩ := exists_mem_of_overlap hsplit hba (by simp; omega) (by simpa using hlt)
    hbefore hpat
  exact hdisjoint hx hx'

end First

theorem exists_first {pat s : List α} (h : pat <:+: s) : ∃ before after, First pat s before after := by
  induction s with
  | nil =>
    obtain rfl := List.eq_nil_of_infix_nil h
    exact ⟨[], [], .nil [] []⟩
  | cons c s ih =>
    by_cases hc : pat <+: c :: s
    · obtain ⟨after, hafter⟩ := hc
      exact ⟨[], after, hafter ▸ .nil pat after⟩
    · obtain ⟨before, after, hfirst⟩ := ih ((List.infix_cons_iff.mp h).resolve_left hc)
      exact ⟨c :: before, after, hfirst.cons hc⟩

variable (opn cls : List α)

/-- A scan of a text: the references, each with the text before it, and the text after the last. -/
inductive Cut : List α → List (List α × List α) → List α → Prop
  | last {s : List α} (hopn : ¬ opn <:+: s) : Cut s [] s
  | ref {s before tail name rest last : List α} {refs : List (List α × List α)}
      (hopn : First opn s before tail) (hcls : First cls tail name rest) (h : Cut rest refs last) :
      Cut s ((before, name) :: refs) last

/-- A scan meets a reference with this name, whether or not it gets to the end of the text. -/
inductive Refers : List α → List α → Prop
  | here {s before tail name rest : List α} (hopn : First opn s before tail)
      (hcls : First cls tail name rest) : Refers s name
  | later {s before tail name rest other : List α} (hopn : First opn s before tail)
      (hcls : First cls tail name rest) (h : Refers rest other) : Refers s other

def spell (refs : List (List α × List α)) (last : List α) : List α :=
  refs.flatMap (fun r => r.1 ++ (opn ++ r.2 ++ cls)) ++ last

/-- The references replaced by their values, and the texts around them. -/
def fill (value : List α → List α) (refs : List (List α × List α)) (last : List α) : List α :=
  refs.flatMap (fun r => r.1 ++ value r.2) ++ last

/-- Every opening has a closing after it. -/
def Terminated (s : List α) : Prop := ∀ before after, s = before ++ opn ++ after → cls <:+: after

variable {opn cls}

@[simp] theorem fill_nil (value : List α → List α) (last : List α) : fill value [] last = last := rfl

@[simp] theorem fill_cons (value : List α → List α) (r : List α × List α)
    (refs : List (List α × List α)) (last : List α) :
    fill value (r :: refs) last = r.1 ++ (value r.2 ++ fill value refs last) := by
  simp [fill]

namespace Cut

variable {s last last' : List α} {refs refs' : List (List α × List α)}

theorem spell_eq (h : Cut opn cls s refs last) : spell opn cls refs last = s := by
  induction h with
  | last hopn => rfl
  | @ref s before tail name rest last refs hopn hcls h ih =>
    rw [hopn.eq, hcls.eq, ← ih]
    simp [spell]

theorem unique (h : Cut opn cls s refs last) (h' : Cut opn cls s refs' last') :
    refs = refs' ∧ last = last' := by
  induction h generalizing refs' last' with
  | last hopn =>
    cases h' with
    | last => exact ⟨rfl, rfl⟩
    | ref hopn' => exact absurd hopn'.isInfix hopn
  | ref hopn hcls h ih =>
    cases h' with
    | last hopn' => exact absurd hopn.isInfix hopn'
    | ref hopn' hcls' h' =>
      obtain ⟨rfl, rfl⟩ := hopn.unique hopn'
      obtain ⟨rfl, rfl⟩ := hcls.unique hcls'
      obtain ⟨rfl, rfl⟩ := ih h'
      exact ⟨rfl, rfl⟩

theorem refers_iff (h : Cut opn cls s refs last) {name : List α} :
    Refers opn cls s name ↔ ∃ r ∈ refs, r.2 = name := by
  induction h with
  | last hopn =>
    refine iff_of_false (fun href => ?_) (by simp)
    cases href with
    | here hopn' => exact hopn hopn'.isInfix
    | later hopn' => exact hopn hopn'.isInfix
  | ref hopn hcls h ih =>
    rw [List.exists_mem_cons_iff, ← ih]
    constructor
    · intro href
      cases href with
      | here hopn' hcls' =>
        obtain ⟨rfl, rfl⟩ := hopn.unique hopn'
        exact .inl (hcls.unique hcls').1
      | later hopn' hcls' hlater =>
        obtain ⟨rfl, rfl⟩ := hopn.unique hopn'
        obtain ⟨rfl, rfl⟩ := hcls.unique hcls'
        exact .inr hlater
    · rintro (rfl | hlater)
      · exact .here hopn hcls
      · exact .later hopn hcls hlater

end Cut

/-- A scan gets to the end exactly when every opening has a closing after it. -/
theorem exists_cut_iff (hopn : opn ≠ []) (hcls : cls ≠ []) (hdisjoint : opn.Disjoint cls)
    {s : List α} : (∃ refs last, Cut opn cls s refs last) ↔ Terminated opn cls s := by
  constructor
  · rintro ⟨refs, last, h⟩
    induction h with
    | last hnone => exact fun before after hs => absurd ⟨before, after, hs.symm⟩ hnone
    | @ref s before tail name rest last refs hfirst hclose h ih =>
      intro b a hs
      have hsplit : s = (before ++ opn ++ name) ++ cls ++ rest := by
        rw [hfirst.eq, hclose.eq]
        simp
      rcases Nat.lt_or_ge b.length (before ++ opn ++ name ++ cls).length with hlt | hge
      · rcases Nat.lt_or_ge (before ++ opn ++ name).length (b ++ opn).length with hover | hbefore
        · obtain ⟨x, hx, hx'⟩ := exists_mem_of_overlap hs hsplit
            (by simpa [Nat.add_assoc] using hlt) (by simpa [Nat.add_assoc] using hover) hopn hcls
          exact absurd hx' (hdisjoint hx)
        · obtain ⟨c, -, hc⟩ := exists_append_of_le
            (u := b ++ opn) (v := a) (b := before ++ opn ++ name) (a := cls ++ rest)
            (by rw [← hs, hsplit, List.append_assoc]) hbefore
          exact ⟨c, rest, by rw [hc, List.append_assoc]⟩
      · obtain ⟨c, -, hc⟩ := exists_append_of_le
          (u := before ++ opn ++ name ++ cls) (v := rest) (b := b) (a := opn ++ a)
          (by rw [← hsplit, hs, List.append_assoc]) hge
        exact ih c a (by rw [hc, List.append_assoc])
  · intro h
    induction hn : s.length using Nat.strong_induction_on generalizing s with
    | _ n ih =>
      by_cases hnone : opn <:+: s
      · obtain ⟨before, tail, hfirst⟩ := exists_first hnone
        obtain ⟨name, rest, hclose⟩ := exists_first (h before tail hfirst.eq)
        have hs : s = (before ++ opn ++ name ++ cls) ++ rest := by
          rw [hfirst.eq, hclose.eq]
          simp
        have hpos := List.length_pos_iff.mpr hopn
        have hlen : rest.length < n := by
          rw [← hn, hs]
          simp only [List.length_append]
          omega
        obtain ⟨refs, last, hcut⟩ := ih _ hlen (s := rest) (fun b a hba => by
          refine h (before ++ opn ++ name ++ cls ++ b) a ?_
          rw [hs, hba]
          simp) rfl
        exact ⟨_, _, .ref hfirst hclose hcut⟩
      · exact ⟨_, _, .last hnone⟩

/-- Every opening starts a reference with an accepted name, and every closing lies in one. -/
structure Marked (opn cls : List α) (accepted : List α → Prop) (s : List α) : Prop where
  opened : ∀ before after, s = before ++ opn ++ after →
    ∃ name rest, after = name ++ cls ++ rest ∧ accepted name
  closed : ∀ before after, s = before ++ cls ++ after →
    ∃ b name a, s = b ++ (opn ++ name ++ cls) ++ a ∧ accepted name ∧
      b.length ≤ before.length ∧ a.length < (cls ++ after).length

/-- A scan to the end that leaves no closing outside of its references, all of them accepted. -/
structure Accepts (opn cls : List α) (accepted : List α → Prop) (s : List α)
    (refs : List (List α × List α)) (last : List α) : Prop where
  cut : Cut opn cls s refs last
  accepted : ∀ r ∈ refs, accepted r.2
  texts : ∀ r ∈ refs, ¬ cls <:+: r.1
  last : ¬ cls <:+: last

section Marked

variable {accepted : List α → Prop}

theorem Marked.of_accepts (hopn : opn ≠ []) (hcls : cls ≠ []) (hdisjoint : opn.Disjoint cls)
    (hnames : ∀ name, accepted name → opn.Disjoint name ∧ cls.Disjoint name) {s last : List α}
    {refs : List (List α × List α)} (h : Accepts opn cls accepted s refs last) :
    Marked opn cls accepted s := by
  obtain ⟨hcut, haccepted, htexts, hlast⟩ := h
  induction hcut with
  | last hnone =>
    exact ⟨fun b a hs => absurd ⟨b, a, hs.symm⟩ hnone, fun b a hs => absurd ⟨b, a, hs.symm⟩ hlast⟩
  | @ref s before tail name rest last refs hfirst hclose h ih =>
    obtain ⟨hname, haccepted⟩ := List.forall_mem_cons.mp haccepted
    obtain ⟨hbefore, htexts⟩ := List.forall_mem_cons.mp htexts
    have ih := ih haccepted htexts hlast
    have hs : s = before ++ opn ++ (name ++ cls) ++ rest := by
      rw [hfirst.eq, hclose.eq]
      simp
    constructor
    · intro b a hba
      have hle := hfirst.le b a hba
      rcases Nat.lt_or_ge b.length (before ++ opn ++ (name ++ cls)).length with hlt | hge
      · -- in the reference: only its own opening
        have hsame : b.length = before.length := by
          by_contra hne
          obtain ⟨x, hx, hx'⟩ := exists_mem_of_overlap hba hs
            (by simpa [Nat.add_assoc] using hlt) (by simp; omega) hopn (by simp [hcls])
          rcases List.mem_append.mp hx' with hx' | hx'
          · exact (hnames name hname).1 hx hx'
          · exact hdisjoint hx hx'
        obtain ⟨-, rfl⟩ := parts_unique hba hfirst.eq hsame
        exact ⟨name, rest, hclose.eq, hname⟩
      · obtain ⟨c, -, hc⟩ := exists_append_of_le
          (by rw [← hs, hba, List.append_assoc]) hge
        exact ih.opened c a (by rw [hc, List.append_assoc])
    · intro b a hba
      rcases Nat.lt_or_ge b.length (before ++ opn ++ (name ++ cls)).length with hlt | hge
      · refine ⟨before, name, rest, by rw [hs]; simp, hname, ?_, ?_⟩
        · by_contra hlt'
          rcases Nat.lt_or_ge before.length (b ++ cls).length with hover | hin
          · have hs' : s = before ++ opn ++ tail := hfirst.eq
            obtain ⟨x, hx, hx'⟩ := exists_mem_of_overlap hs' hba
              (by simpa using hover) (by omega) hopn hcls
            exact hdisjoint hx hx'
          · obtain ⟨c, hc, -⟩ := exists_append_of_le (u := b ++ cls)
              (by rw [← hba, hfirst.eq, List.append_assoc]) hin
            exact hbefore ⟨b, c, hc.symm⟩
        · have hlen := congrArg List.length (hba.symm.trans hs)
          simp only [List.length_append] at hlen hlt ⊢
          omega
      · obtain ⟨c, rfl, hc⟩ := exists_append_of_le
          (by rw [← hs, hba, List.append_assoc]) hge
        obtain ⟨b', name', a', hrest, hname', hb', ha'⟩ :=
          ih.closed c a (by rw [hc, List.append_assoc])
        refine ⟨before ++ opn ++ (name ++ cls) ++ b', name', a', ?_, hname', ?_, ha'⟩
        · rw [hs, hrest]
          simp
        · simp only [List.length_append] at hb' ⊢
          omega

theorem Marked.rest (hopn : opn ≠ []) (hcls : cls ≠ []) (hdisjoint : opn.Disjoint cls)
    (hnames : ∀ name, accepted name → opn.Disjoint name ∧ cls.Disjoint name)
    {s before name rest : List α} (h : Marked opn cls accepted s)
    (hfirst : First opn s before (name ++ cls ++ rest)) (hname : accepted name) :
    Marked opn cls accepted rest := by
  have hs : s = before ++ opn ++ (name ++ cls) ++ rest := by
    rw [hfirst.eq]
    simp
  constructor
  · intro b a hba
    refine h.opened (before ++ opn ++ (name ++ cls) ++ b) a ?_
    rw [hs, hba]
    simp
  · intro b a hba
    obtain ⟨b', name', a', hs', hname', hb', ha'⟩ :=
      h.closed (before ++ opn ++ (name ++ cls) ++ b) a (by rw [hs, hba]; simp)
    have hopened : s = b' ++ opn ++ (name' ++ cls ++ a') := by
      rw [hs']
      simp
    have hle := hfirst.le _ _ hopened
    rcases Nat.lt_or_ge b'.length (before ++ opn ++ (name ++ cls)).length with hlt | hge
    · exfalso
      rcases Nat.eq_or_lt_of_le hle with hsame | hlt'
      · obtain ⟨-, htail⟩ := parts_unique hfirst.eq hopened hsame
        have hclose : First cls (name ++ cls ++ rest) name rest :=
          .of_disjoint hcls (List.disjoint_symm (hnames name hname).2)
        have hclose' : First cls (name ++ cls ++ rest) name' a' := by
          rw [htail]
          exact .of_disjoint hcls (List.disjoint_symm (hnames name' hname').2)
        have hrest := congrArg List.length (hclose.unique hclose').2
        rw [hba] at hrest
        simp only [List.length_append] at hrest ha'
        omega
      · obtain ⟨x, hx, hx'⟩ := exists_mem_of_overlap hopened hs
          (by simpa [Nat.add_assoc] using hlt) (by simp; omega) hopn (by simp [hcls])
        rcases List.mem_append.mp hx' with hx' | hx'
        · exact (hnames name hname).1 hx hx'
        · exact hdisjoint hx hx'
    · obtain ⟨c, rfl, hc⟩ := exists_append_of_le (v := rest) (a := opn ++ (name' ++ cls ++ a'))
        (by rw [← hs, hopened, List.append_assoc]) hge
      refine ⟨c, name', a', by rw [hc]; simp, hname', ?_, ha'⟩
      simp only [List.length_append] at hb' ⊢
      omega

theorem Marked.exists_accepts (hopn : opn ≠ []) (hcls : cls ≠ []) (hdisjoint : opn.Disjoint cls)
    (hnames : ∀ name, accepted name → opn.Disjoint name ∧ cls.Disjoint name) {s : List α}
    (h : Marked opn cls accepted s) : ∃ refs last, Accepts opn cls accepted s refs last := by
  induction hn : s.length using Nat.strong_induction_on generalizing s with
  | _ n ih =>
    by_cases hnone : opn <:+: s
    · obtain ⟨before, tail, hfirst⟩ := exists_first hnone
      obtain ⟨name, rest, rfl, hname⟩ := h.opened before tail hfirst.eq
      have hclose : First cls (name ++ cls ++ rest) name rest :=
        .of_disjoint hcls (List.disjoint_symm (hnames name hname).2)
      have hlen : rest.length < n := by
        have hpos := List.length_pos_iff.mpr hopn
        rw [← hn, hfirst.eq]
        simp only [List.length_append]
        omega
      obtain ⟨refs, last, hcut, haccepted, htexts, hlast⟩ :=
        ih _ hlen (h.rest hopn hcls hdisjoint hnames hfirst hname) rfl
      refine ⟨_, _, .ref hfirst hclose hcut, List.forall_mem_cons.mpr ⟨hname, haccepted⟩,
        List.forall_mem_cons.mpr ⟨?_, htexts⟩, hlast⟩
      -- a closing before the first opening would lie in a reference that starts earlier
      rintro ⟨b, a, hba⟩
      dsimp only at hba
      obtain ⟨b', name', a', hs', -, hb', -⟩ :=
        h.closed b (a ++ opn ++ (name ++ cls ++ rest)) (by rw [hfirst.eq, ← hba]; simp)
      have hle := hfirst.le b' (name' ++ cls ++ a') (by rw [hs']; simp)
      have hlen := congrArg List.length hba
      have hpos := List.length_pos_iff.mpr hcls
      simp only [List.length_append] at hlen
      omega
    · refine ⟨[], s, .last hnone, by simp, by simp, ?_⟩
      rintro ⟨b, a, hba⟩
      obtain ⟨b', name', a', hs', -⟩ := h.closed b a hba.symm
      exact hnone ⟨b', name' ++ cls ++ a', by rw [hs']; simp⟩

/-- Where no accepted name has a letter of the delimiters, a scan accepts a text exactly when every
opening starts a reference with an accepted name and every closing lies in one. -/
theorem exists_accepts_iff (hopn : opn ≠ []) (hcls : cls ≠ []) (hdisjoint : opn.Disjoint cls)
    (hnames : ∀ name, accepted name → opn.Disjoint name ∧ cls.Disjoint name) {s : List α} :
    (∃ refs last, Accepts opn cls accepted s refs last) ↔ Marked opn cls accepted s :=
  ⟨fun ⟨_, _, h⟩ => .of_accepts hopn hcls hdisjoint hnames h,
    fun h => h.exists_accepts hopn hcls hdisjoint hnames⟩

/-- In a marked text any spelling, with no delimiters outside of its references, is what a scan finds. -/
theorem Marked.accepts_spell (hopn : opn ≠ []) (hcls : cls ≠ []) (hdisjoint : opn.Disjoint cls)
    (hnames : ∀ name, accepted name → opn.Disjoint name ∧ cls.Disjoint name)
    {refs : List (List α × List α)} {last : List α}
    (h : Marked opn cls accepted (spell opn cls refs last))
    (haccepted : ∀ r ∈ refs, accepted r.2) (htexts : ∀ r ∈ refs, ¬ opn <:+: r.1 ∧ ¬ cls <:+: r.1)
    (hlast : ¬ opn <:+: last ∧ ¬ cls <:+: last) :
    Accepts opn cls accepted (spell opn cls refs last) refs last := by
  induction refs with
  | nil => exact ⟨.last hlast.1, by simp, by simp, hlast.2⟩
  | cons r refs ih =>
    obtain ⟨before, name⟩ := r
    obtain ⟨hname, haccepted⟩ := List.forall_mem_cons.mp haccepted
    obtain ⟨hbefore, htexts⟩ := List.forall_mem_cons.mp htexts
    have hs : spell opn cls ((before, name) :: refs) last =
        before ++ opn ++ (name ++ cls ++ spell opn cls refs last) := by
      simp [spell]
    have hfirst : First opn (spell opn cls ((before, name) :: refs) last) before
        (name ++ cls ++ spell opn cls refs last) := by
      refine ⟨hs, fun b a hba => Nat.le_of_not_lt fun hlt => ?_⟩
      rcases Nat.lt_or_ge before.length (b ++ opn).length with hover | hin
      · -- an opening that runs into the reference would have the opening of the reference in its name
        obtain ⟨name', rest', rfl, hname'⟩ := h.opened b a hba
        have hba' : spell opn cls ((before, name) :: refs) last =
            b ++ opn ++ (name' ++ cls) ++ rest' := by
          rw [hba]
          simp
        obtain ⟨x, hx, hx'⟩ := exists_mem_of_overlap hs hba'
          (by simp only [List.length_append] at hover ⊢; omega)
          (by simp only [List.length_append]; omega) hopn (by simp [hcls])
        rcases List.mem_append.mp hx' with hx' | hx'
        · exact (hnames name' hname').1 hx hx'
        · exact hdisjoint hx hx'
      · obtain ⟨c, hc, -⟩ := exists_append_of_le (u := b ++ opn)
          (by rw [← hba, hs, List.append_assoc]) hin
        exact hbefore.1 ⟨b, c, hc.symm⟩
    have hrest := ih (h.rest hopn hcls hdisjoint hnames hfirst hname) haccepted htexts
    have hclose : First cls (name ++ cls ++ spell opn cls refs last) name (spell opn cls refs last) :=
      .of_disjoint hcls (List.disjoint_symm (hnames name hname).2)
    exact ⟨.ref hfirst hclose hrest.cut, List.forall_mem_cons.mpr ⟨hname, hrest.accepted⟩,
      List.forall_mem_cons.mpr ⟨hbefore.2, hrest.texts⟩, hrest.last⟩

theorem Cut.texts {s last : List α} {refs : List (List α × List α)} (hopn : opn ≠ [])
    (h : Cut opn cls s refs last) : (∀ r ∈ refs, ¬ opn <:+: r.1) ∧ ¬ opn <:+: last := by
  induction h with
  | last hnone => exact ⟨by simp, hnone⟩
  | @ref s before tail name rest last refs hfirst hclose h ih =>
    refine ⟨List.forall_mem_cons.mpr ⟨?_, ih.1⟩, ih.2⟩
    rintro ⟨b, a, hba⟩
    dsimp only at hba
    have hle := hfirst.le b (a ++ opn ++ tail) (by rw [hfirst.eq, ← hba]; simp)
    have hlen := congrArg List.length hba
    have hpos := List.length_pos_iff.mpr hopn
    simp only [List.length_append] at hlen
    omega

end Marked

end Delimited
