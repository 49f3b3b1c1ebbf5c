import Soika.Adapters.Directory

/-! # Views of the directory

A statement about one team, or one project, leaves what is stored about every other one
alone. What the statements do to the rows of the team itself is said table by table.
-/

namespace Soika

open Table

namespace TeamTables

variable {T T' T'' : TeamTables} {id : Id} {name : String}

/-- Only rows of the team `id`, called `name`, differ. -/
structure SameOutside (id : Id) (name : String) (T T' : TeamTables) : Prop where
  named : ∀ n, n ≠ name → T'.teamNamed n = T.teamNamed n
  emails : ∀ i, i ≠ id → T'.emailsOf i = T.emailsOf i
  groups : ∀ i, i ≠ id → T'.groupsOf i = T.groupsOf i
  members : ∀ i, i ≠ id → T'.memberOf i = T.memberOf i
  owned : ∀ i, i ≠ id → T'.ownedOf i = T.ownedOf i

namespace SameOutside

theorem refl (id : Id) (name : String) (T : TeamTables) : SameOutside id name T T :=
  ⟨fun _ _ => rfl, fun _ _ => rfl, fun _ _ => rfl, fun _ _ => rfl, fun _ _ => rfl⟩

theorem trans (h : SameOutside id name T T') (h' : SameOutside id name T' T'') :
    SameOutside id name T T'' where
  named n hn := (h'.named n hn).trans (h.named n hn)
  emails i hi := (h'.emails i hi).trans (h.emails i hi)
  groups i hi := (h'.groups i hi).trans (h.groups i hi)
  members i hi := (h'.members i hi).trans (h.members i hi)
  owned i hi := (h'.owned i hi).trans (h.owned i hi)

theorem view (h : SameOutside id name T T') {n : String} (hn : n ≠ name)
    (hid : ∀ row, T.teamNamed n = some row → row.id ≠ id) : T'.view n = T.view n := by
  rw [TeamTables.view, TeamTables.view, h.named n hn]
  cases hrow : T.teamNamed n with
  | none => rfl
  | some row =>
    have hne := hid row hrow
    simp only [Option.map_some, viewOf, h.emails _ hne, h.groups _ hne, h.members _ hne,
      h.owned _ hne]

end SameOutside

theorem teamNamed_modifyTeam {f : TeamRow → TeamRow} (hf : ∀ t, (f t).name = t.name) (id : Id)
    (n : String) : (T.modifyTeam id f).teamNamed n =
      (T.teamNamed n).map fun t => if t.id = id then f t else t :=
  lookup_modify hf n id T.teams

theorem Consistent.sameOutside_modifyTeam (h : T.Consistent) {row : TeamRow}
    (hrow : T.teamNamed name = some row) {f : TeamRow → TeamRow} (hf : ∀ t, (f t).name = t.name) :
    SameOutside row.id name T (T.modifyTeam row.id f) := by
  refine { SameOutside.refl row.id name T with named := fun n hn => ?_ }
  rw [teamNamed_modifyTeam hf]
  cases hr : T.teamNamed n with
  | none => rfl
  | some r => rw [Option.map_some, if_neg (h.id_ne hr hrow hn)]

theorem teamNamed_addTeam (row : TeamRow) (n : String) :
    (T.addTeam row).teamNamed n = (T.teamNamed n).or (if row.name = n then some row else none) :=
  lookup_append_single

theorem sameOutside_addTeam (row : TeamRow) : SameOutside row.id row.name T (T.addTeam row) := by
  refine { SameOutside.refl row.id row.name T with named := fun n hn => ?_ }
  rw [teamNamed_addTeam, if_neg hn.symm, Option.or_none]

theorem Consistent.viewOf_of_not_hasTeam (h : T.Consistent) {row : TeamRow}
    (hrow : ¬ T.HasTeam row.id) : T.viewOf row = ⟨row, [], [], fun _ => none, []⟩ := by
  have hselect : ∀ {α : Type} (key : α → Id) (rows : List α), (∀ a ∈ rows, T.HasTeam (key a)) →
      select key row.id rows = [] := by
    intro α key rows hrows
    rw [select, List.filter_eq_nil_iff]
    intro a ha heq
    exact hrow (of_decide_eq_true heq ▸ hrows a ha)
  have hmembers : T.memberOf row.id = fun _ => none := by
    funext u
    refine lookup_eq_none.mpr fun m hm heq => hrow ?_
    have hteam : m.teamId = row.id := congrArg Prod.fst heq
    exact hteam ▸ h.memberTeam m hm
  simp only [viewOf, emailsOf, groupsOf, ownedOf, hmembers, hselect _ _ h.grantTeam,
    hselect _ _ h.groupTeam, hselect _ _ h.ownedTeam, List.map_nil]

def memberAfter (id userId : Id) (role : Option TeamRole) (now : Timestamp)
    (old : Option TeamMember) : Option TeamMember :=
  role.map fun role =>
    match old with
    | some m => m.withRole role
    | none => ⟨id, userId, role, now⟩

theorem teamMembers_setMember_of_some {userId : Id} {m : TeamMember} (role : TeamRole)
    (now : Timestamp) (hm : T.memberOf id userId = some m) :
    (T.setMember id userId (some role) now).teamMembers =
      modify TeamMember.key (id, userId) (TeamMember.withRole role) T.teamMembers := by
  simp only [setMember, hm]

theorem teamMembers_setMember_of_none {userId : Id} (role : TeamRole) (now : Timestamp)
    (hm : T.memberOf id userId = none) : (T.setMember id userId (some role) now).teamMembers =
      T.teamMembers ++ [⟨id, userId, role, now⟩] := by
  simp only [setMember, hm]

theorem memberOf_setMember_self (id userId : Id) (role : Option TeamRole) (now : Timestamp) :
    (T.setMember id userId role now).memberOf id userId =
      memberAfter id userId role now (T.memberOf id userId) := by
  cases role with
  | none => exact lookup_remove_self _ _
  | some role =>
    cases hm : T.memberOf id userId with
    | none =>
      have hlookup : lookup TeamMember.key (id, userId) T.teamMembers = none := hm
      rw [memberOf, teamMembers_setMember_of_none role now hm, lookup_append_single, hlookup]
      simp [memberAfter, TeamMember.key]
    | some m =>
      have hlookup : lookup TeamMember.key (id, userId) T.teamMembers = some m := hm
      rw [memberOf, teamMembers_setMember_of_some role now hm,
        lookup_modify_self (TeamMember.withRole_key role), hlookup]
      rfl

theorem memberOf_setMember_ne {userId i u : Id} (h : (i, u) ≠ (id, userId))
    (role : Option TeamRole) (now : Timestamp) :
    (T.setMember id userId role now).memberOf i u = T.memberOf i u := by
  cases role with
  | none => exact lookup_remove_ne h _
  | some role =>
    cases hm : T.memberOf id userId with
    | none =>
      rw [memberOf, teamMembers_setMember_of_none role now hm, lookup_append_single,
        if_neg fun heq => h heq.symm, Option.or_none]
      rfl
    | some m =>
      rw [memberOf, teamMembers_setMember_of_some role now hm,
        lookup_modify_ne (TeamMember.withRole_key role) h]
      rfl

theorem memberOf_removeTeam_ne {i : Id} (hi : i ≠ id) (u : Id) :
    (T.removeTeam id).memberOf i u = T.memberOf i u :=
  lookup_filter fun m _ hm => by
    have : m.teamId = i := congrArg Prod.fst hm
    simpa [this] using hi

theorem Consistent.teamNamed_removeTeam_self (h : T.Consistent) {row : TeamRow}
    (hrow : T.teamNamed name = some row) : (T.removeTeam row.id).teamNamed name = none := by
  refine lookup_eq_none.mpr fun t ht hname => ?_
  obtain ⟨ht, hne⟩ := mem_remove.mp ht
  have := h.teamNamed_of_mem ht
  rw [hname, hrow] at this
  exact hne (congrArg TeamRow.id (Option.some.inj this).symm)

theorem Consistent.sameOutside_removeTeam (h : T.Consistent) {row : TeamRow}
    (hrow : T.teamNamed name = some row) : SameOutside row.id name T (T.removeTeam row.id) where
  named n hn := lookup_filter fun t ht hname => by
    have := h.teamNamed_of_mem ht
    rw [hname] at this
    simpa using h.id_ne this hrow hn
  emails i hi := congrArg (List.map _) (select_remove_ne hi _)
  groups i hi := congrArg (List.map _) (select_remove_ne hi _)
  members i hi := funext (memberOf_removeTeam_ne hi)
  owned i hi := by rw [ownedOf, removeTeam_teamOwned, select_remove_ne hi, ownedOf]

end TeamTables

namespace ProjectTables

variable {T T' : ProjectTables}

theorem projectSlugged_modifyProject {f : ProjectRow → ProjectRow}
    (hf : ∀ p, (f p).slug = p.slug) (id : Id) (slug : String) :
    (T.modifyProject id f).projectSlugged slug =
      (T.projectSlugged slug).map fun p => if p.projectId = id then f p else p :=
  lookup_modify hf slug id T.projects

theorem Consistent.view_modifyProject (h : T.Consistent) {row : ProjectRow} {slug : String}
    (hrow : T.projectSlugged slug = some row) {f : ProjectRow → ProjectRow}
    (hslug : ∀ p, (f p).slug = p.slug) (hid : (f row).id = row.id) (l : String) :
    (T.modifyProject row.id f).view l =
      if l = slug then some { T.viewOf row with row := f row } else T.view l := by
  rw [view, projectSlugged_modifyProject hslug]
  split
  · subst l
    rw [hrow, Option.map_some, if_pos (show row.projectId = row.id from rfl), Option.map_some,
      viewOf, hid]
    rfl
  · rename_i hl
    rw [view]
    cases hr : T.projectSlugged l with
    | none => rfl
    | some r =>
      have hne : r.projectId ≠ row.id := h.id_ne hr hrow hl
      rw [Option.map_some, Option.map_some, if_neg hne]
      rfl

theorem projectSlugged_addProject (row : ProjectRow) (l : String) :
    (T.addProject row).projectSlugged l =
      (T.projectSlugged l).or (if row.slug = l then some row else none) :=
  lookup_append_single

theorem Consistent.viewOf_of_not_hasProject (h : T.Consistent) {row : ProjectRow}
    (hrow : ¬ T.HasProject row.id) : T.viewOf row = ⟨row, [], []⟩ := by
  have hselect : ∀ {α : Type} (key : α → Id) (rows : List α),
      (∀ a ∈ rows, T.HasProject (key a)) → select key row.id rows = [] := by
    intro α key rows hrows
    rw [select, List.filter_eq_nil_iff]
    intro a ha heq
    exact hrow (of_decide_eq_true heq ▸ hrows a ha)
  simp only [viewOf, hselect _ _ h.issueProject, hselect _ _ h.ownedProject]

theorem Consistent.view_addProject (h : T.Consistent) {row : ProjectRow}
    (hid : ¬ T.HasProject row.id) (hslug : T.projectSlugged row.slug = none) (l : String) :
    (T.addProject row).view l = if l = row.slug then some ⟨row, [], []⟩ else T.view l := by
  rw [view, projectSlugged_addProject]
  split
  · subst l
    rw [hslug, Option.none_or, if_pos rfl, ← h.viewOf_of_not_hasProject hid]
    rfl
  · rename_i hl
    rw [if_neg (Ne.symm hl), Option.or_none]
    rfl

theorem Consistent.view_removeProject (h : T.Consistent) {row : ProjectRow} {slug : String}
    (hrow : T.projectSlugged slug = some row) (l : String) :
    (T.removeProject row.id).view l = if l = slug then none else T.view l := by
  have hslugged : ∀ p ∈ T.projects, p.slug = l → l ≠ slug → p.projectId ≠ row.id := by
    rintro p hp rfl hl
    exact h.id_ne (h.projectSlugged_of_mem hp) hrow hl
  split
  · subst l
    have hnone : (T.removeProject row.id).projectSlugged slug = none := by
      refine lookup_eq_none.mpr fun p hp hpslug => ?_
      obtain ⟨hp, hne⟩ := mem_remove.mp hp
      have := h.projectSlugged_of_mem hp
      rw [hpslug, hrow] at this
      exact hne (congrArg ProjectRow.projectId (Option.some.inj this).symm)
    rw [view, hnone]
    rfl
  · rename_i hl
    have hsame : (T.removeProject row.id).projectSlugged l = T.projectSlugged l :=
      lookup_filter fun p hp hpslug => by simpa using hslugged p hp hpslug hl
    rw [view, hsame, view]
    cases hr : T.projectSlugged l with
    | none => rfl
    | some r =>
      have hne : r.id ≠ row.id := h.id_ne hr hrow hl
      rw [Option.map_some, Option.map_some, viewOf, viewOf, ProjectTables.removeProject,
        select_remove_ne hne, select_remove_ne hne]

end ProjectTables

end Soika
