import Mathlib.Data.List.TakeWhile
import Soika.Domain.Notifications

/-! # The grammar of templates

A template is a sequence of texts and placeholders. Whether it can be rendered does
not depend on the values of the variables, once each of them has one: what is
accepted with the sample values is accepted with the values of any issue.
-/

namespace Soika

/-- A part of a template: copied, or replaced by the value of a variable. -/
inductive Piece where
  | text (chars : List Char)
  | placeholder (name : String)

inductive Reads : List Char → List Piece → Prop
  | text {s : List Char} (hopen : cutText opening s = none) (hclose : ¬ hasText closing s) :
      Reads s [.text s]
  | placeholder {s before tail inner rest : List Char} {ps : List Piece}
      (hopen : cutText opening s = some (before, tail)) (hbefore : ¬ hasText closing before)
      (hclose : cutText closing tail = some (inner, rest))
      (hname : String.ofList (trimChars inner) ∈ VARIABLES) (h : Reads rest ps) :
      Reads s (.text before :: .placeholder (String.ofList (trimChars inner)) :: ps)

namespace Piece

def fill (vars : OrdMap String String) : Piece → List Char
  | text chars => chars
  | placeholder name => ((vars.get name).getD "").toList

def Visible (vars : OrdMap String String) (p : Piece) : Prop := ∃ c ∈ p.fill vars, ¬ isWhitespace c

end Piece

/-- Every variable has a value. -/
def Complete (vars : OrdMap String String) : Prop := ∀ name ∈ VARIABLES, ∃ v, vars.get name = some v

variable {vars : OrdMap String String}

theorem renderRounds_of_reads (hv : Complete vars) {s : List Char} {ps : List Piece}
    (h : Reads s ps) {rounds : ℕ} (hr : s.length ≤ rounds) :
    renderRounds vars rounds s = .ok (ps.flatMap (Piece.fill vars)) := by
  induction h generalizing rounds with
  | @text s hopen hclose =>
    cases rounds <;> simp [renderRounds, hopen, hclose, Piece.fill]
  | @placeholder s before tail inner rest ps hopen hbefore hclose hname h ih =>
    have hs := cutText_length hopen
    have htail := cutText_length hclose
    simp only [opening, closing, List.length_cons, List.length_nil] at hs htail
    obtain ⟨rounds, rfl⟩ : ∃ n, rounds = n + 1 := ⟨rounds - 1, by omega⟩
    obtain ⟨v, hvalue⟩ := hv _ hname
    have hrest := @ih rounds (by omega)
    simp [renderRounds, hopen, hbefore, hclose, hname, hvalue, hrest, Piece.fill]

theorem reads_of_renderRounds {rounds : ℕ} {s out : List Char} (hr : s.length ≤ rounds)
    (h : renderRounds vars rounds s = .ok out) : ∃ ps, Reads s ps := by
  induction rounds generalizing s out with
  | zero =>
    obtain rfl := List.length_eq_zero_iff.mp (Nat.le_zero.mp hr)
    exact ⟨_, .text rfl (by decide)⟩
  | succ rounds ih =>
    rw [renderRounds] at h
    split at h
    · rename_i hopen
      split_ifs at h with hclose
      exact ⟨_, .text hopen hclose⟩
    · rename_i before tail hopen
      split_ifs at h with hbefore
      split at h
      · cases h
      · rename_i inner rest hclose
        have hs := cutText_length hopen
        have htail := cutText_length hclose
        simp only [opening, closing, List.length_cons, List.length_nil] at hs htail
        dsimp only at h
        split_ifs at h with hname
        split at h
        · cases h
        · split at h
          · rename_i hrest
            obtain ⟨ps, hps⟩ := ih (by omega) hrest
            exact ⟨_, .placeholder hopen hbefore hclose hname hps⟩
          · cases h

/-- A template without blocks and comments, in which every placeholder is closed and names a
variable. -/
def Template (template : String) (ps : List Piece) : Prop :=
  ¬ hasText ['\x7b', '%'] template.toList ∧ ¬ hasText ['\x7b', '#'] template.toList ∧
    Reads template.toList ps

theorem renderTemplate_of_template (hv : Complete vars) {template : String} {ps : List Piece}
    (h : Template template ps) :
    renderTemplate template vars = .ok (String.ofList (ps.flatMap (Piece.fill vars))) := by
  obtain ⟨hblock, hcomment, hreads⟩ := h
  have hrounds := renderRounds_of_reads hv hreads (Nat.le_refl _)
  simp [renderTemplate, hblock, hcomment, hrounds, Except.map]

theorem template_of_renderTemplate {template out : String}
    (h : renderTemplate template vars = .ok out) : ∃ ps, Template template ps := by
  unfold renderTemplate at h
  dsimp only at h
  split_ifs at h with hblocks
  rw [Bool.or_eq_true, not_or] at hblocks
  cases hr : renderRounds vars template.toList.length template.toList with
  | error e => rw [hr] at h; cases h
  | ok chars =>
    obtain ⟨ps, hps⟩ := reads_of_renderRounds (Nat.le_refl _) hr
    exact ⟨ps, hblocks.1, hblocks.2, hps⟩

theorem exists_renderTemplate_iff (hv : Complete vars) {template : String} :
    (∃ out, renderTemplate template vars = .ok out) ↔ ∃ ps, Template template ps := by
  constructor
  · rintro ⟨out, h⟩
    exact template_of_renderTemplate h
  · rintro ⟨ps, h⟩
    exact ⟨_, renderTemplate_of_template hv h⟩

theorem trim_eq_empty {s : String} : trim s = "" ↔ ∀ c ∈ s.toList, isWhitespace c := by
  have hofList : trim s = "" ↔ trimChars s.toList = [] := by
    rw [← String.toList_inj]
    simp [trim, trimChars]
  rw [hofList, trimChars, List.reverse_eq_nil_iff, List.dropWhile_eq_nil_iff]
  constructor
  · intro h c hc
    by_contra hwhite
    have hkept : s.toList.dropWhile isWhitespace ≠ [] := fun hnil =>
      hwhite (List.dropWhile_eq_nil_iff.mp hnil c hc)
    have hhead := List.head_dropWhile_not isWhitespace hkept
    rw [h _ (List.mem_reverse.mpr (List.head_mem hkept))] at hhead
    cases hhead
  · intro h c hc
    exact h c ((List.dropWhile_sublist _).mem (List.mem_reverse.mp hc))

/-- A rendered template is not blank when one of its parts shows something. -/
theorem trim_rendered_ne {ps : List Piece} :
    trim (String.ofList (ps.flatMap (Piece.fill vars))) ≠ "" ↔ ∃ p ∈ ps, p.Visible vars := by
  rw [ne_eq, trim_eq_empty]
  simp only [String.toList_ofList, List.mem_flatMap, Piece.Visible]
  push Not
  constructor
  · rintro ⟨c, ⟨p, hp, hc⟩, hwhite⟩
    exact ⟨p, hp, c, hc, hwhite⟩
  · rintro ⟨p, hp, c, hc, hwhite⟩
    exact ⟨c, ⟨p, hp, hc⟩, hwhite⟩

end Soika
