import SqlChain.Proofs.Chain.Built

/-!
# Names of columns

Operations keep names apart, but for a selection or a summary that asks for a name twice: nothing
looks at this but a renaming. A name that is asked for by a selection may also be that of a grouping
column that is put in front.
-/

namespace SqlChain

variable {c : Compiler} {source : Source} {s : State} {h : Heading} {before : List Warning}

/-! ## Headings -/

namespace Heading

/-- No two columns and no two grouping columns have the same name. -/
structure IsDistinct (h : Heading) : Prop where
  columns : h.columns.Nodup
  groups : h.groups.Nodup

/-- Whether a selection or a summary asks for the same name twice. -/
def Repeats (h : Heading) : Op → Prop
  | .select idents => ¬(h.missing idents ++ idents.map Ident.output).Nodup
  | .summarise assignments => ¬(assignments.map Prod.fst).Nodup
  | _ => False

/-- The columns that a selection leaves, the missing grouping columns among them. -/
def selected (h : Heading) (idents : List Ident) : List Ident :=
  (h.missing idents).map Ident.ofName ++ idents

theorem output_selected (h : Heading) (idents : List Ident) :
    (h.selected idents).map Ident.output = (h.select idents).columns := by
  rw [selected, List.map_append, List.map_map]
  exact congrArg (· ++ idents.map Ident.output) (List.map_id _)

/-- A grouping column is called what one of the columns with its name is called. -/
theorem exists_output_eq_followed {name : String} {idents : List Ident}
    (hname : ∃ i ∈ idents, i.name = name) :
    ∃ i ∈ idents, i.name = name ∧ i.output = Relation.followed idents name := by
  rw [Relation.followed]
  cases hfound : idents.findSome? fun i => if i.name = name then i.newName else none with
  | none =>
      obtain ⟨i, hi, rfl⟩ := hname
      have hnone := List.findSome?_eq_none_iff.1 hfound i hi
      rw [if_pos rfl] at hnone
      exact ⟨i, hi, rfl, by simp [Ident.output, hnone]⟩
  | some newName =>
      obtain ⟨i, hi, hsome⟩ := List.exists_of_findSome?_eq_some hfound
      split at hsome
      · next heq => exact ⟨i, hi, heq, by simp [Ident.output, hsome]⟩
      · cases hsome

/-- Different grouping columns are still different after a selection. -/
theorem nodup_followed {idents : List Ident} {groups : List String} (hgroups : groups.Nodup)
    (hnames : ∀ g ∈ groups, ∃ i ∈ idents, i.name = g) (houtput : (idents.map Ident.output).Nodup) :
    (groups.map (Relation.followed idents)).Nodup := by
  refine List.Nodup.map_on ?_ hgroups
  intro g hg g' hg' heq
  obtain ⟨i, hi, rfl, hio⟩ := exists_output_eq_followed (hnames g hg)
  obtain ⟨j, hj, rfl, hjo⟩ := exists_output_eq_followed (hnames g' hg')
  have hij : i.output = j.output := (hio.trans heq).trans hjo.symm
  rw [List.inj_on_of_nodup_map houtput hi hj hij]

theorem exists_mem_selected {idents : List Ident} {g : String} (hg : g ∈ h.groups) :
    ∃ i ∈ h.selected idents, i.name = g := by
  by_cases hselected : idents.any (·.name == g) = true
  · obtain ⟨i, hi, hname⟩ := List.any_eq_true.1 hselected
    exact ⟨i, List.mem_append_right _ hi, by simpa using hname⟩
  · refine ⟨Ident.ofName g, List.mem_append_left _ (List.mem_map_of_mem ?_), rfl⟩
    exact List.mem_filter.2 ⟨hg, by simpa using hselected⟩

namespace IsDistinct

theorem select (hh : h.IsDistinct) {idents : List Ident}
    (houtput : (h.select idents).columns.Nodup) : (h.select idents).IsDistinct where
  columns := houtput
  groups := by
    rw [← output_selected] at houtput
    have hgroups := nodup_followed hh.groups (fun _ hg => exists_mem_selected hg) houtput
    rwa [selected, Relation.followed_ofName_append] at hgroups

theorem assigns (hh : h.IsDistinct) (assignments : List (String × Expr)) :
    (assignments.foldl (fun h a => h.assign a.1) h).IsDistinct := by
  induction assignments generalizing h with
  | nil => exact hh
  | cons a rest ih => exact ih ⟨nodup_withName hh.columns a.1, hh.groups⟩

/-- The forms of a statement have the names of the chain. -/
theorem shown (hh : h.IsDistinct) (mode : Mode) : (h.shown mode).IsDistinct where
  columns := by
    cases mode with
    | plain => exact hh.columns
    | labels => exact hh.groups
    | groups =>
        rw [Heading.shown]
        split
        · exact hh.columns
        · refine List.nodup_append.2 ⟨hh.groups, hh.columns.filter _, ?_⟩
          rintro g hg _ hn rfl
          simp [hg] at hn
  groups := by
    rw [groups_shown]
    exact hh.groups

end IsDistinct

end Heading

/-! ## Operations -/

namespace Compiler

theorem ne_of_checkAssignments {assignments : List (String × Expr)}
    (hcheck : checkAssignments s assignments = .ok ⟨⟩) :
    ∀ a ∈ assignments, a.1 ∉ s.groups := by
  induction assignments with
  | nil => simp
  | cons a rest ih =>
      obtain ⟨name, e⟩ := a
      obtain ⟨⟨⟩, _, hcheck⟩ := exists_of_bind_eq_ok hcheck
      by_cases hgroup : s.groups.contains name = true
      · rw [if_pos hgroup] at hcheck
        cases hcheck
      · rw [if_neg hgroup] at hcheck
        refine List.forall_mem_cons.2 ⟨by simpa using hgroup, ih ?_⟩
        exact hcheck

end Compiler

namespace BuildM

/-- An operation that would put two columns under one name is refused, unless it repeats the name by
itself. -/
theorem ensuresAfter_step_isDistinct (hs : Reached c source s) (hfollows : s.Follows before h)
    (hh : h.IsDistinct) {op : Op} (hrepeats : ¬h.Repeats op) :
    (c.step s op).EnsuresAfter before fun _ _ => (h.apply op).IsDistinct := by
  cases op with
  | select idents => exact fun _ _ _ _ _ => hh.select (not_not.1 hrepeats)
  | rename pairs =>
      refine (EnsuresAfter.lift _).bind ?_
      rintro _ _ ⟨_, rfl⟩
      dsimp only
      split
      · exact .throw _
      · next hnone =>
          have houtput := (Compiler.firstRepeated?_eq_none_iff.1 hnone).1
          have hclosed := hs.isClosed
          have hgroups : ∀ g ∈ h.groups, g ∈ h.columns := by
            rw [← hfollows.groups, ← hfollows.columns]
            exact hclosed.groups
          have horder : ∀ key ∈ h.order, ∀ n ∈ key.columns, n ∈ h.columns := by
            rw [← hfollows.order, ← hfollows.columns]
            exact hclosed.order
          have hrename := Heading.select_renamedIdents hgroups horder pairs
          have hcolumns : (Compiler.renamedIdents h.columns pairs).map Ident.output =
              (h.rename pairs).columns := Heading.output_renamedIdents h.columns pairs
          rw [hfollows.columns, hcolumns, ← hrename] at houtput
          have hdistinct := hh.select houtput
          rw [hrename] at hdistinct
          exact fun _ _ _ _ _ => hdistinct
  | filter | arrange => exact fun _ _ _ _ _ => ⟨hh.columns, hh.groups⟩
  | mutate assignments => exact fun _ _ _ _ _ => hh.assigns assignments
  | summarise assignments =>
      refine (EnsuresAfter.lift _).bind ?_
      rintro _ _ ⟨hcheck, rfl⟩
      have hapart := Compiler.ne_of_checkAssignments hcheck
      rw [hfollows.groups] at hapart
      refine fun _ _ _ _ _ => ⟨List.nodup_append.2 ⟨hh.groups, not_not.1 hrepeats, ?_⟩, .nil⟩
      rintro g hg _ hn rfl
      obtain ⟨a, ha, rfl⟩ := List.mem_map.1 hn
      exact hapart a ha hg
  | groupBy keys add =>
      refine fun _ _ _ _ _ => ⟨hh.columns, Compiler.nodup_addNew ?_ keys⟩
      cases add with
      | false => exact .nil
      | true => exact hh.groups
  | ungroup => exact fun _ _ _ _ _ => ⟨hh.columns, .nil⟩

end BuildM

end SqlChain
