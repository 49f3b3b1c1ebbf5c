import Soika.Alertmanager.Template
import Soika.Domain.Find

/-! # What a template is, told from its braces

A template can be rendered when its braces mark placeholders of known variables and nothing else.
The values take no part in that, and stand in the result as they are.
-/

namespace Soika

open Delimited

def NamesVariable (inner : List Char) : Prop := String.ofList (trimChars inner) ∈ VARIABLES

instance (inner : List Char) : Decidable (NamesVariable inner) :=
  inferInstanceAs (Decidable (_ ∈ _))

/-- A template with neither blocks nor comments, each opening of which starts a placeholder of a known
variable, and each closing of which lies in one. -/
structure WellFormed (template : String) : Prop where
  noBlock : ¬ ['\x7b', '%'] <:+: template.toList
  noComment : ¬ ['\x7b', '#'] <:+: template.toList
  marked : Marked opening closing NamesVariable template.toList

/-- The texts and placeholders of a template: each placeholder with the text before it, and the text
after the last one. -/
structure Layout (template : String) (placeholders : List (List Char × List Char))
    (last : List Char) : Prop where
  spelled : spell opening closing placeholders last = template.toList
  known : ∀ p ∈ placeholders, NamesVariable p.2
  plain : ∀ text ∈ last :: placeholders.map Prod.fst,
    ¬ opening <:+: text ∧ ¬ closing <:+: text

/-- The value of the variable that a placeholder names. -/
def placeholderValue (vars : OrdMap String String) (inner : List Char) : List Char :=
  ((vars.get (String.ofList (trimChars inner))).getD "").toList

theorem trimChars_sublist_mem {s : List Char} {c : Char} (h : c ∈ s) (hc : ¬ isWhitespace c) :
    c ∈ trimChars s := by
  have hdrop : ∀ {s : List Char}, c ∈ s → c ∈ s.dropWhile isWhitespace := by
    intro s h
    rw [← List.takeWhile_append_dropWhile (p := isWhitespace) (l := s), List.mem_append] at h
    exact h.resolve_left fun htake => hc (List.mem_takeWhile_imp htake)
  exact List.mem_reverse.mpr (hdrop (List.mem_reverse.mpr (hdrop h)))

theorem braces_not_mem {inner : List Char} (h : NamesVariable inner) {c : Char}
    (hc : c = '\x7b' ∨ c = '\x7d') : c ∉ inner := by
  intro hmem
  have htrim : c ∈ trimChars inner := by
    refine trimChars_sublist_mem hmem ?_
    rcases hc with rfl | rfl <;> decide
  have hnames : ∀ name ∈ VARIABLES, '\x7b' ∉ name.toList ∧ '\x7d' ∉ name.toList := by decide
  have hname := hnames _ h
  rw [String.toList_ofList] at hname
  rcases hc with rfl | rfl
  · exact hname.1 htrim
  · exact hname.2 htrim

theorem opening_disjoint_closing : opening.Disjoint closing := by simp [opening, closing]

theorem names_disjoint (inner : List Char) (h : NamesVariable inner) :
    opening.Disjoint inner ∧ closing.Disjoint inner := by
  constructor
  · intro c hc hmem
    exact braces_not_mem h (.inl (by simpa [opening] using hc)) hmem
  · intro c hc hmem
    exact braces_not_mem h (.inr (by simpa [closing] using hc)) hmem

def scanned (placeholders : List (List Char × List Char)) (last : List Char) : List Piece :=
  placeholders.flatMap (fun p => [.text p.1, .placeholder (String.ofList (trimChars p.2))]) ++
    [.text last]

theorem flatMap_scanned (vars : OrdMap String String) (placeholders : List (List Char × List Char))
    (last : List Char) : (scanned placeholders last).flatMap (Piece.fill vars) =
      fill (placeholderValue vars) placeholders last := by
  induction placeholders with
  | nil => simp [scanned, Piece.fill, fill]
  | cons p placeholders ih =>
    rw [fill_cons, ← ih]
    simp [scanned, Piece.fill, placeholderValue]

theorem reads_of_accepts {s last : List Char} {placeholders : List (List Char × List Char)}
    (h : Accepts opening closing NamesVariable s placeholders last) :
    Reads s (scanned placeholders last) := by
  obtain ⟨hcut, hknown, htexts, hlast⟩ := h
  induction hcut with
  | last hopn =>
    refine .text ((cutText_eq_none (by decide)).mpr hopn) ?_
    rwa [hasText_iff (by decide)]
  | ref hopn hcls h ih =>
    obtain ⟨hname, hknown⟩ := List.forall_mem_cons.mp hknown
    obtain ⟨hbefore, htexts⟩ := List.forall_mem_cons.mp htexts
    refine .placeholder ((cutText_eq_some (by decide)).mpr hopn) ?_
      ((cutText_eq_some (by decide)).mpr hcls) hname (ih hknown htexts hlast)
    rwa [hasText_iff (by decide)]

theorem accepts_of_reads {s : List Char} {ps : List Piece} (h : Reads s ps) :
    ∃ placeholders last, Accepts opening closing NamesVariable s placeholders last := by
  induction h with
  | text hopen hclose =>
    rw [hasText_iff (by decide)] at hclose
    exact ⟨[], _, .last ((cutText_eq_none (by decide)).mp hopen), by simp, by simp, hclose⟩
  | placeholder hopen hbefore hclose hname h ih =>
    obtain ⟨placeholders, last, hcut, hknown, htexts, hlast⟩ := ih
    rw [hasText_iff (by decide)] at hbefore
    exact ⟨_, last, .ref ((cutText_eq_some (by decide)).mp hopen)
      ((cutText_eq_some (by decide)).mp hclose) hcut, List.forall_mem_cons.mpr ⟨hname, hknown⟩,
      List.forall_mem_cons.mpr ⟨hbefore, htexts⟩, hlast⟩

theorem wellFormed_iff_template {template : String} :
    WellFormed template ↔ ∃ ps, Template template ps := by
  constructor
  · rintro ⟨hblock, hcomment, hmarked⟩
    obtain ⟨placeholders, last, h⟩ := hmarked.exists_accepts (by decide) (by decide)
      opening_disjoint_closing names_disjoint
    rw [← hasText_iff (by decide)] at hblock hcomment
    exact ⟨_, hblock, hcomment, reads_of_accepts h⟩
  · rintro ⟨ps, hblock, hcomment, hreads⟩
    obtain ⟨placeholders, last, h⟩ := accepts_of_reads hreads
    rw [hasText_iff (by decide)] at hblock hcomment
    exact ⟨hblock, hcomment, .of_accepts (by decide) (by decide) opening_disjoint_closing
      names_disjoint h⟩

theorem WellFormed.exists_layout {template : String} (h : WellFormed template) :
    ∃ placeholders last,
      Accepts opening closing NamesVariable template.toList placeholders last ∧
      Layout template placeholders last ∧
      ∀ placeholders' last', Layout template placeholders' last' →
        placeholders' = placeholders ∧ last' = last := by
  obtain ⟨placeholders, last, hscan⟩ := h.marked.exists_accepts (by decide) (by decide)
    opening_disjoint_closing names_disjoint
  have htexts := hscan.cut.texts (by decide)
  refine ⟨placeholders, last, hscan, ⟨hscan.cut.spell_eq, hscan.accepted, ?_⟩, ?_⟩
  · refine List.forall_mem_cons.mpr ⟨⟨htexts.2, hscan.last⟩, ?_⟩
    exact List.forall_mem_map.mpr fun p hp => ⟨htexts.1 p hp, hscan.texts p hp⟩
  · intro placeholders' last' hlayout
    obtain ⟨hspelled, hknown, hplain⟩ := hlayout
    obtain ⟨hlast, hplain⟩ := List.forall_mem_cons.mp hplain
    have hmarked := h.marked
    rw [← hspelled] at hmarked
    have hscan' := hmarked.accepts_spell (by decide) (by decide) opening_disjoint_closing
      names_disjoint hknown (List.forall_mem_map.mp hplain) hlast
    rw [hspelled] at hscan'
    exact hscan'.cut.unique hscan.cut

/--
Rendering with a value for every variable: it succeeds exactly on the well-formed templates, whatever
the values are; the result is the template with the value of each placeholder in its place, and
everything else as it was.
-/
theorem renderTemplate_grammar (template : String) (vars : OrdMap String String)
    (hvars : Complete vars) :
    ((∃ out, renderTemplate template vars = .ok out) ↔ WellFormed template) ∧
    ∀ out, renderTemplate template vars = .ok out →
      ∃ placeholders last, Layout template placeholders last ∧
        (∀ placeholders' last', Layout template placeholders' last' →
          placeholders' = placeholders ∧ last' = last) ∧
        out = String.ofList (fill (placeholderValue vars) placeholders last) := by
  have hiff : (∃ out, renderTemplate template vars = .ok out) ↔ WellFormed template :=
    (exists_renderTemplate_iff hvars).trans wellFormed_iff_template.symm
  refine ⟨hiff, fun out hout => ?_⟩
  have hwell := hiff.mp ⟨out, hout⟩
  obtain ⟨placeholders, last, hscan, hlayout, hunique⟩ := hwell.exists_layout
  refine ⟨placeholders, last, hlayout, hunique, ?_⟩
  have hblocks := hwell.noBlock
  have hcomments := hwell.noComment
  rw [← hasText_iff (by decide)] at hblocks hcomments
  have hrendered := renderTemplate_of_template hvars ⟨hblocks, hcomments, reads_of_accepts hscan⟩
  rw [hout, flatMap_scanned] at hrendered
  exact Except.ok.inj hrendered

def bracedVariables : OrdMap String String :=
  .ofList (VARIABLES.map fun key => (key, "\x7b\x7b title \x7d\x7d \x7b%"))

theorem bracedVariables_complete : Complete bracedVariables := by
  have hsome : ∀ name ∈ VARIABLES, (bracedVariables.get name).isSome = true := by decide +kernel
  exact fun name hname => Option.isSome_iff_exists.mp (hsome name hname)

theorem renderTemplate_grammar_braces :
    (∃ out, renderTemplate "\x7b \x7b\x7b title \x7d\x7d\x7d" bracedVariables = .ok out) ↔
      WellFormed "\x7b \x7b\x7b title \x7d\x7d\x7d" :=
  (renderTemplate_grammar _ _ bracedVariables_complete).1

end Soika
