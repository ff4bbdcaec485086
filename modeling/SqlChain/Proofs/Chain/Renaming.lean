import Mathlib.Data.List.Nodup
import SqlChain.Proofs.Chain.Built

/-!
# Renaming there and back

A renaming gives a state other names for its columns and changes nothing else about it
(`run_rename`). It succeeds only if it keeps the columns apart, so that the renaming in the other
direction can be read off it.
-/

namespace SqlChain

/-! ## Renamings one after the other -/

namespace Expr

mutual

theorem mapColumns_mapColumns (f g : String → String) :
    ∀ e : Expr, (e.mapColumns f).mapColumns g = e.mapColumns fun name => g (f name)
  | .column _ | .literal _ => rfl
  | .call _ args _ => by
    rw [mapColumns, mapColumns, mapColumns, mapColumnsOfArgs_mapColumnsOfArgs f g args]
  | .conditional condition value none => by
    rw [mapColumns, mapColumns, mapColumns, mapColumns_mapColumns f g condition,
      mapColumns_mapColumns f g value]
  | .conditional condition value (some otherwise) => by
    rw [mapColumns, mapColumns, mapColumns, mapColumns_mapColumns f g condition,
      mapColumns_mapColumns f g value, mapColumns_mapColumns f g otherwise]
  | .inList expr candidates => by
    rw [mapColumns, mapColumns, mapColumns, mapColumns_mapColumns f g expr,
      mapColumnsOfList_mapColumnsOfList f g candidates]
  | .inExpr left right | .binary _ left right => by
    rw [mapColumns, mapColumns, mapColumns, mapColumns_mapColumns f g left,
      mapColumns_mapColumns f g right]
  | .unary _ operand => by
    rw [mapColumns, mapColumns, mapColumns, mapColumns_mapColumns f g operand]

theorem mapColumnsOfArgs_mapColumnsOfArgs (f g : String → String) :
    ∀ args : List (Arg Expr), mapColumnsOfArgs g (mapColumnsOfArgs f args) =
      mapColumnsOfArgs (fun name => g (f name)) args
  | [] => rfl
  | ⟨_, e⟩ :: rest => by
    rw [mapColumnsOfArgs, mapColumnsOfArgs, mapColumnsOfArgs, mapColumns_mapColumns f g e,
      mapColumnsOfArgs_mapColumnsOfArgs f g rest]

theorem mapColumnsOfList_mapColumnsOfList (f g : String → String) :
    ∀ es : List Expr, mapColumnsOfList g (mapColumnsOfList f es) =
      mapColumnsOfList (fun name => g (f name)) es
  | [] => rfl
  | e :: rest => by
    rw [mapColumnsOfList, mapColumnsOfList, mapColumnsOfList, mapColumns_mapColumns f g e,
      mapColumnsOfList_mapColumnsOfList f g rest]

end

/-- A renaming that leads back from every column of an expression leads back from the
expression. -/
theorem rename_rename {pairs back : List (String × String)} {e : Expr}
    (h : ∀ n ∈ e.columns, renamed back (renamed pairs n) = n) :
    (e.rename pairs).rename back = e := by
  rw [rename, rename, mapColumns_mapColumns, mapColumns_congr e h, mapColumns_id]

/-! ## The way back -/

/-- The new name of every column that was renamed, with the name to go back to. -/
def renamingBack (columns : List String) (pairs : List (String × String)) :
    List (String × String) :=
  columns.filterMap fun name => (pairs.lookup name).map (·, name)

variable {columns : List String} {pairs : List (String × String)}

theorem renamingBack_cons (name : String) :
    renamingBack (name :: columns) pairs =
      ((pairs.lookup name).map (·, name)).toList ++ renamingBack columns pairs := by
  rw [renamingBack, List.filterMap_cons]
  cases pairs.lookup name <;> rfl

theorem fst_mem_of_mem_renamingBack {x : String × String} (hx : x ∈ renamingBack columns pairs) :
    x.1 ∈ columns.map (renamed pairs) := by
  obtain ⟨name, hname, hmap⟩ := List.mem_filterMap.1 hx
  obtain ⟨target, htarget, rfl⟩ := Option.map_eq_some_iff.1 hmap
  exact List.mem_map.2 ⟨name, hname, by rw [renamed, htarget, Option.getD_some]⟩

/-- The columns are kept apart by their new names, so that each of them is found again. -/
theorem renamed_renamingBack (hnodup : (columns.map (renamed pairs)).Nodup) :
    ∀ n ∈ columns, renamed (renamingBack columns pairs) (renamed pairs n) = n := by
  induction columns with
  | nil => simp
  | cons m rest ih =>
      obtain ⟨hfresh, hrest⟩ := List.nodup_cons.1 hnodup
      have happ : ∀ name, name ≠ renamed pairs m →
          renamed (renamingBack (m :: rest) pairs) name =
            renamed (renamingBack rest pairs) name := by
        intro name hname
        rw [renamed, renamed, renamingBack_cons]
        cases htarget : pairs.lookup m with
        | none => rfl
        | some target =>
            rw [renamed, htarget, Option.getD_some] at hname
            rw [Option.map_some, Option.toList_some, List.singleton_append, List.lookup_cons,
              beq_false_of_ne hname]
      refine List.forall_mem_cons.2 ⟨?_, fun n hn => ?_⟩
      · have hnone : (renamingBack rest pairs).lookup (renamed pairs m) = none := by
          rw [List.lookup_eq_none_iff]
          intro x hx
          have hne : renamed pairs m ≠ x.1 := fun h =>
            hfresh (h ▸ fst_mem_of_mem_renamingBack hx)
          simpa using hne
        rw [renamed, renamingBack_cons]
        cases htarget : pairs.lookup m with
        | none =>
            rw [renamed, htarget, Option.getD_none] at hnone ⊢
            rw [Option.map_none, Option.toList_none, List.nil_append, hnone, Option.getD_none]
        | some target =>
            rw [renamed, htarget, Option.getD_some, Option.map_some, Option.toList_some,
              List.singleton_append, List.lookup_cons_self, Option.getD_some]
      · have hne : renamed pairs n ≠ renamed pairs m := fun h =>
          hfresh (h ▸ List.mem_map_of_mem hn)
        rw [happ _ hne, ih hrest n hn]

end Expr

/-! ## The state that a renaming leads to -/

namespace Body

variable {b : Body}

theorem item?_eq_some (hnodup : b.outputs.Nodup) {item : Item} (hitem : item ∈ b.items) :
    b.item? item.name = some item := by
  obtain ⟨found, hfound⟩ := exists_item? (List.mem_map_of_mem (f := Item.name) hitem)
  have hname : found.name = item.name := by simpa using List.find?_some hfound
  rw [hfound, List.inj_on_of_nodup_map hnodup (List.mem_of_find?_eq_some hfound) hitem hname]

theorem selected_renamedIdents (hnodup : b.outputs.Nodup) (pairs : List (String × String)) :
    b.selected (Compiler.renamedIdents b.outputs pairs) =
      b.items.map fun item => { item with name := Expr.renamed pairs item.name } := by
  rw [selected, Compiler.renamedIdents, outputs, List.map_map, List.filterMap_map,
    ← List.filterMap_eq_map]
  refine List.filterMap_congr fun item hitem => ?_
  rw [Function.comp_apply, Function.comp_apply, item?_eq_some hnodup hitem, Option.map_some]
  rfl

end Body

namespace State

variable {s : State} {pairs : List (String × String)}

/-- The state with the name of every column replaced wherever it stands. -/
def renamed (s : State) (pairs : List (String × String)) : State where
  level := s.level.withBody
    { s.level.body with
      items := s.level.body.items.map fun item =>
        { item with name := Expr.renamed pairs item.name } }
  groups := s.groups.map (Expr.renamed pairs)
  order := s.order.map (Expr.rename pairs)

theorem columns_renamed (s : State) (pairs : List (String × String)) :
    (s.renamed pairs).columns = s.columns.map (Expr.renamed pairs) := by
  rw [renamed, columns_withBody, Body.outputs, List.map_map, columns, Level.outputs, Body.outputs,
    List.map_map]
  rfl

theorem IsClosed.renamed (hs : s.IsClosed) (pairs : List (String × String)) :
    (s.renamed pairs).IsClosed where
  groups := by
    rw [columns_renamed]
    exact fun g hg => List.map_subset _ hs.groups hg
  order := by
    rw [columns_renamed]
    intro key hkey n hn
    obtain ⟨old, hold, rfl⟩ := List.mem_map.1 hkey
    rw [Expr.rename, Expr.columns_mapColumns] at hn
    exact List.map_subset _ (hs.order old hold) hn

theorem renamed_renamed {back : List (String × String)} (hs : s.IsClosed)
    (hback : ∀ n ∈ s.columns, Expr.renamed back (Expr.renamed pairs n) = n) :
    (s.renamed pairs).renamed back = s := by
  have hitems : s.level.body.items.map (fun item =>
      { item with name := Expr.renamed back (Expr.renamed pairs item.name) }) =
        s.level.body.items := by
    conv_rhs => rw [← List.map_id s.level.body.items]
    refine List.map_congr_left fun item hitem => ?_
    rw [hback item.name (List.mem_map_of_mem (f := Item.name) hitem)]
    rfl
  have hlevel : ((s.renamed pairs).renamed back).level = s.level := by
    conv_rhs => rw [← Level.withBody_body s.level]
    rw [renamed, renamed, Level.body_withBody, Level.withBody_withBody, List.map_map]
    exact congrArg (fun items => s.level.withBody { s.level.body with items }) hitems
  have hgroups : ((s.renamed pairs).renamed back).groups = s.groups := by
    rw [renamed, renamed, List.map_map]
    conv_rhs => rw [← List.map_id s.groups]
    exact List.map_congr_left fun g hg => hback g (hs.groups g hg)
  have horder : ((s.renamed pairs).renamed back).order = s.order := by
    change (s.order.map (Expr.rename pairs)).map (Expr.rename back) = s.order
    rw [List.map_map]
    conv_rhs => rw [← List.map_id s.order]
    refine List.map_congr_left fun key hkey => ?_
    exact Expr.rename_rename fun n hn => hback n (hs.order key hkey n hn)
  calc (s.renamed pairs).renamed back
    _ = ⟨((s.renamed pairs).renamed back).level, ((s.renamed pairs).renamed back).groups,
          ((s.renamed pairs).renamed back).order⟩ := rfl
    _ = s := by rw [hlevel, hgroups, horder]

/-- As all columns are selected, nothing is added to them and nothing is lost with them. -/
theorem project_renamedIdents (hs : s.IsClosed) (hnodup : s.columns.Nodup)
    (pairs : List (String × String)) :
    s.project (s.withGroups (Compiler.renamedIdents s.columns pairs)) = s.renamed pairs ∧
      s.dropped (s.withGroups (Compiler.renamedIdents s.columns pairs)) = [] := by
  let h : Heading := { columns := s.columns, groups := s.groups, order := s.order, dropped := [] }
  have hheading : h.select (Compiler.renamedIdents s.columns pairs) = h.rename pairs :=
    Heading.select_renamedIdents hs.groups hs.order pairs
  have hidents : s.withGroups (Compiler.renamedIdents s.columns pairs) =
      Compiler.renamedIdents s.columns pairs := by
    have hmissing : h.missing (Compiler.renamedIdents s.columns pairs) = [] :=
      Heading.missing_renamedIdents hs.groups pairs
    exact congrArg (fun missing => missing.map Ident.ofName ++ _) hmissing
  have hitems : s.level.body.selected (Compiler.renamedIdents s.columns pairs) = _ :=
    Body.selected_renamedIdents hnodup pairs
  have hproject : s.project (s.withGroups (Compiler.renamedIdents s.columns pairs)) =
      { level := s.level.withBody
          { s.level.body with
            items := s.level.body.selected
              (s.withGroups (Compiler.renamedIdents s.columns pairs)) }
        groups := (h.select (Compiler.renamedIdents s.columns pairs)).groups
        order := (h.select (Compiler.renamedIdents s.columns pairs)).order } := by
    rw [project, isKept_withGroups, rename_withGroups, funext (renamed_withGroups s _)]
    rfl
  constructor
  · rw [hproject, hheading, hidents, hitems]
    rfl
  · rw [dropped, isKept_withGroups]
    exact congrArg (List.map Warning.orderingDropped) (congrArg Heading.dropped hheading)

end State

/-! ## Runs -/

section

variable {s : State} {pairs : List (String × String)}

theorem run_select {idents : List Ident} (hnames : ∀ i ∈ idents, i.name ∈ s.columns)
    (p : Progress) :
    (s.select idents).run p = .ok (s.project (s.withGroups idents),
      { p with dropped := p.dropped ++ s.dropped (s.withGroups idents) }) := by
  rw [State.select, State.checkNames_of_mem (List.forall_mem_map.2 hnames)]
  rfl

/-- A renaming is one of columns and keeps them apart, or it is refused. -/
theorem ensures_rename (s : State) (pairs : List (String × String)) :
    (Compiler.rename s pairs).Ensures fun _ =>
      (∀ x ∈ pairs, x.1 ∈ s.columns) ∧ (s.columns.map (Expr.renamed pairs)).Nodup := by
  refine BuildM.Ensures.bind (.lift fun _ hcheck => State.mem_of_checkNames hcheck) ?_
  intro _ hnames
  dsimp only
  split
  · exact .throw _
  · next hnone =>
      have hnodup := (Compiler.firstRepeated?_eq_none_iff.1 hnone).1
      rw [Heading.output_renamedIdents] at hnodup
      exact fun _ _ _ _ => ⟨List.forall_mem_map.1 hnames, hnodup⟩

theorem run_rename (hs : s.IsClosed) (hnames : ∀ x ∈ pairs, x.1 ∈ s.columns)
    (hnodup : (s.columns.map (Expr.renamed pairs)).Nodup) (p : Progress) :
    (Compiler.rename s pairs).run p = .ok (s.renamed pairs, p) := by
  have hcheck : s.checkNames (pairs.map Prod.fst) = .ok () :=
    State.checkNames_of_mem (List.forall_mem_map.2 hnames)
  have hselected : ∀ i ∈ Compiler.renamedIdents s.columns pairs, i.name ∈ s.columns := by
    simp [Compiler.renamedIdents]
  have hnone : Compiler.firstRepeated? []
      ((Compiler.renamedIdents s.columns pairs).map Ident.output) = none := by
    rw [Compiler.firstRepeated?_eq_none_iff, Heading.output_renamedIdents]
    exact ⟨hnodup, fun _ _ => List.not_mem_nil⟩
  obtain ⟨hproject, hdropped⟩ := State.project_renamedIdents hs (.of_map _ hnodup) pairs
  rw [Compiler.rename, hcheck]
  dsimp only
  rw [hnone]
  change (s.select (Compiler.renamedIdents s.columns pairs)).run p = _
  rw [run_select hselected, hproject, hdropped, List.append_nil]

end

/-- A renaming that a chain can make can be taken back: the names it led to lead to the names they
came from, and nothing of the state is changed and nothing is remarked on the way there and back. -/
theorem run_rename_renamingBack {c : Compiler} {q : Query} {pairs : List (String × String)}
    {s s' : State} {p p' : Progress} (hbuild : (c.build q).run .start = .ok (s, p))
    (hrename : (c.step s (.rename pairs)).run p = .ok (s', p')) :
    s'.columns = s.columns.map (Expr.renamed pairs) ∧ p' = p ∧
      (∀ n ∈ s.columns,
        Expr.renamed (Expr.renamingBack s.columns pairs) (Expr.renamed pairs n) = n) ∧
      (c.step s' (.rename (Expr.renamingBack s.columns pairs))).run p' = .ok (s, p) := by
  have hs := (BuildM.ensuresAfter_build c q .start s p rfl hbuild).1.isClosed
  obtain ⟨hnames, hnodup⟩ := ensures_rename s pairs p s' p' hrename
  have hthere := run_rename hs hnames hnodup p
  rw [← show (c.step s (.rename pairs)) = Compiler.rename s pairs from rfl, hrename] at hthere
  cases hthere
  have hback := Expr.renamed_renamingBack hnodup
  have hcolumns := State.columns_renamed s pairs
  refine ⟨hcolumns, rfl, hback, ?_⟩
  have hnodupBack :
      ((s.renamed pairs).columns.map (Expr.renamed (Expr.renamingBack s.columns pairs))).Nodup := by
    have hrestored := (List.map_congr_left hback).trans (List.map_id s.columns)
    rw [hcolumns, List.map_map]
    exact hrestored.symm ▸ List.Nodup.of_map _ hnodup
  have hnamesBack : ∀ x ∈ Expr.renamingBack s.columns pairs, x.1 ∈ (s.renamed pairs).columns := by
    rw [hcolumns]
    exact fun x hx => Expr.fst_mem_of_mem_renamingBack hx
  have hagain := run_rename (hs.renamed pairs) hnamesBack hnodupBack p
  rw [State.renamed_renamed hs hback] at hagain
  exact hagain

/-- A state that is grouped and ordered by columns that change places. -/
def exchanged : State where
  level := .ofSource { schema := none, name := "t", columns := ["x", "y", "z"] }
  groups := ["y"]
  order := [.plainCall "desc" [.binary .add (.column "x") (.column "z")]]

theorem run_rename_renamingBack_exchanged :
    (exchanged.renamed [("x", "y"), ("y", "x"), ("x", "z")]).columns = ["y", "x", "z"] ∧
      (Compiler.step (.builtin .ansi .default)
        (exchanged.renamed [("x", "y"), ("y", "x"), ("x", "z")])
        (.rename [("y", "x"), ("x", "y")])).run .start = .ok (exchanged, .start) := by
  have hbuild : (Compiler.build (.builtin .ansi .default)
      { source := { schema := none, name := "t", columns := ["x", "y", "z"] }
        ops := [.groupBy ["y"] false, .arrange exchanged.order] }).run .start =
          .ok (exchanged, .start) := by rfl
  have hrename : (Compiler.step (.builtin .ansi .default) exchanged
      (.rename [("x", "y"), ("y", "x"), ("x", "z")])).run .start =
        .ok (exchanged.renamed [("x", "y"), ("y", "x"), ("x", "z")], .start) := by rfl
  obtain ⟨hcolumns, -, -, hback⟩ := run_rename_renamingBack hbuild hrename
  exact ⟨hcolumns, hback⟩

end SqlChain
