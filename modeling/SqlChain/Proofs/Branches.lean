import Mathlib.Data.List.Perm.Basic
import SqlChain.Compiler.Branches
import SqlChain.Proofs.Building

/-!
# Arguments of a conditional

A call of a conditional puts its named arguments into their places and then those without a name, in
their order, into the places that are left. It does not matter where the named ones stand
(`Branches.addNamed_perm`), nor what the values are (`Choice.related_ofArgs`), and of no more
arguments than there are places none is lost (`Choice.perm_of_ofArgs`).
-/

namespace SqlChain

/-! ## Lists that are made of two others -/

/-- The last list has the elements of the first two, those of each in their order. -/
inductive Interleaves {α : Type} : List α → List α → List α → Prop
  | nil : Interleaves [] [] []
  | left {x : α} {xs ys zs : List α} (h : Interleaves xs ys zs) :
      Interleaves (x :: xs) ys (x :: zs)
  | right {y : α} {xs ys zs : List α} (h : Interleaves xs ys zs) :
      Interleaves xs (y :: ys) (y :: zs)

namespace Interleaves

variable {α : Type} {xs ys zs : List α}

theorem refl_right (ys : List α) : Interleaves [] ys ys := by
  induction ys with
  | nil => exact .nil
  | cons y ys ih => exact ih.right

theorem perm (h : Interleaves xs ys zs) : zs.Perm (xs ++ ys) := by
  induction h with
  | nil => exact .refl []
  | left _ ih => exact ih.cons _
  | right _ ih => exact (ih.cons _).trans List.perm_middle.symm

theorem filter_eq {p : α → Bool} (h : Interleaves xs ys zs) (hx : ∀ x ∈ xs, p x = true)
    (hy : ∀ y ∈ ys, p y = false) : zs.filter p = xs := by
  induction h with
  | nil => rfl
  | left _ ih =>
      obtain ⟨hfirst, hx⟩ := List.forall_mem_cons.1 hx
      rw [List.filter_cons_of_pos hfirst, ih hx hy]
  | right _ ih =>
      obtain ⟨hfirst, hy⟩ := List.forall_mem_cons.1 hy
      rw [List.filter_cons_of_neg (by simp [hfirst]), ih hx hy]

end Interleaves

/-! ## Arguments and outcomes -/

variable {α β : Type}

/-- Arguments of the same names whose values are related. -/
def RelatedArgs (R : α → β → Prop) : List (Arg α) → List (Arg β) → Prop :=
  List.Forall₂ fun x y => x.name = y.name ∧ R x.value y.value

/-- The same error, or values that are related. -/
inductive SameOutcome (R : α → β → Prop) : Except Error α → Except Error β → Prop
  | error (e : Error) : SameOutcome R (.error e) (.error e)
  | ok {x : α} {y : β} (h : R x y) : SameOutcome R (.ok x) (.ok y)

theorem SameOutcome.exists_of_ok {R : α → β → Prop} {r : Except Error α} {r' : Except Error β}
    (h : SameOutcome R r r') {x : α} (hr : r = .ok x) : ∃ y, r' = .ok y ∧ R x y := by
  subst hr
  cases h with
  | ok h => exact ⟨_, rfl, h⟩

/-! ## Parts -/

namespace Branches

variable {b : Branches α} {function : String}

/-- The parts that were given, in the order of the places. -/
def list (b : Branches α) (is : List Branch) : List α := is.filterMap b.get

/-- The places that are left. -/
def free (b : Branches α) (is : List Branch) : List Branch := is.filter fun i => (b.get i).isNone

theorem list_cons (b : Branches α) (i : Branch) (is : List Branch) :
    b.list (i :: is) = (b.get i).toList ++ b.list is := by
  rw [list, List.filterMap_cons]
  cases b.get i <;> rfl

theorem length_list_add_length_free (b : Branches α) (is : List Branch) :
    (b.list is).length + (b.free is).length = is.length := by
  induction is with
  | nil => rfl
  | cons i is ih =>
      rw [list_cons, free, List.filter_cons]
      cases b.get i <;> simp [← ih, free] <;> omega

theorem list_set_of_notMem {i : Branch} {is : List Branch} (hi : i ∉ is) (x : α) :
    (b.set x i).list is = b.list is :=
  List.filterMap_congr fun _ hj => get_set_ne b x (ne_of_mem_of_not_mem hj hi).symm

theorem free_set_of_notMem {i : Branch} {is : List Branch} (hi : i ∉ is) (x : α) :
    (b.set x i).free is = b.free is :=
  List.filter_congr fun _ hj => by rw [get_set_ne b x (ne_of_mem_of_not_mem hj hi).symm]

theorem perm_list_set {i : Branch} {is : List Branch} (his : is.Nodup) (hi : i ∈ is)
    (hfree : b.get i = none) (x : α) : ((b.set x i).list is).Perm (x :: b.list is) := by
  induction is with
  | nil => cases hi
  | cons j is ih =>
      obtain ⟨hj, his⟩ := List.nodup_cons.1 his
      rw [list_cons, list_cons]
      by_cases hij : i = j
      · subst hij
        rw [get_set_self, hfree, list_set_of_notMem hj]
        exact .refl _
      · rw [get_set_ne b x hij]
        have hi : i ∈ is := (List.mem_cons.1 hi).resolve_left hij
        exact ((ih his hi).append_left _).trans List.perm_middle

theorem set_comm {i j : Branch} (hij : i ≠ j) (x y : α) :
    (b.set x i).set y j = (b.set y j).set x i := by
  cases i <;> cases j <;> first | rfl | exact absurd rfl hij

/-! ## Named arguments -/

/-- A named argument takes a place that is left. -/
theorem addNamed_named_eq_ok_iff {name : String} {x : α} {rest : List (Arg α)}
    {named : Branches α} :
    b.addNamed function (⟨some name, x⟩ :: rest) = .ok named ↔
      ∃ i, Branch.ofName? name = some i ∧ b.get i = none ∧
        (b.set x i).addNamed function rest = .ok named := by
  rw [addNamed]
  cases Branch.ofName? name with
  | none => simp
  | some i => cases hi : b.get i <;> simp [hi]

/-- It does not matter in which order the arguments are given. -/
theorem addNamed_perm {args args' : List (Arg α)} (hperm : args.Perm args') {named : Branches α}
    (h : b.addNamed function args = .ok named) : b.addNamed function args' = .ok named := by
  induction hperm generalizing b with
  | nil => exact h
  | cons arg _ ih =>
      obtain ⟨name, x⟩ := arg
      cases name with
      | none => exact ih h
      | some name =>
          obtain ⟨i, hname, hi, h⟩ := addNamed_named_eq_ok_iff.1 h
          exact addNamed_named_eq_ok_iff.2 ⟨i, hname, hi, ih h⟩
  | swap first second rest =>
      obtain ⟨name, x⟩ := first
      obtain ⟨name', y⟩ := second
      cases name with
      | none => cases name' <;> exact h
      | some name =>
          cases name' with
          | none => exact h
          | some name' =>
              obtain ⟨j, hname', hj, h⟩ := addNamed_named_eq_ok_iff.1 h
              obtain ⟨i, hname, hi, h⟩ := addNamed_named_eq_ok_iff.1 h
              have hji : j ≠ i := by
                rintro rfl
                rw [get_set_self] at hi
                cases hi
              rw [get_set_ne b y hji] at hi
              rw [set_comm hji] at h
              refine addNamed_named_eq_ok_iff.2 ⟨i, hname, hi, ?_⟩
              exact addNamed_named_eq_ok_iff.2 ⟨j, hname', by rwa [get_set_ne b x hji.symm], h⟩
  | trans _ _ ih ih' => exact ih' (ih h)

/-- The values of the named arguments. -/
def labelled (args : List (Arg α)) : List α :=
  args.filterMap fun arg => if arg.name.isSome then some arg.value else none

theorem interleaves_unnamed (args : List (Arg α)) :
    Interleaves (unnamed args) (labelled args) (args.map Arg.value) := by
  induction args with
  | nil => exact .nil
  | cons arg rest ih =>
      obtain ⟨name, x⟩ := arg
      cases name with
      | none => exact ih.left
      | some name => exact ih.right

theorem perm_list_addNamed {args : List (Arg α)} {named : Branches α}
    (h : b.addNamed function args = .ok named) :
    (named.list Branch.all).Perm (labelled args ++ b.list Branch.all) := by
  induction args generalizing b with
  | nil =>
      cases h
      exact .refl _
  | cons arg rest ih =>
      obtain ⟨name, x⟩ := arg
      cases name with
      | none => exact ih h
      | some name =>
          obtain ⟨i, _, hi, h⟩ := addNamed_named_eq_ok_iff.1 h
          have hall : i ∈ Branch.all := by cases i <;> decide
          have hset := perm_list_set (show Branch.all.Nodup by decide) hall hi x
          exact ((ih h).trans (hset.append_left _)).trans List.perm_middle

/-! ## Arguments without a name -/

/-- Parts that were given are not given again. -/
theorem get_fill {i : Branch} {x : α} (h : b.get i = some x) (is : List Branch) (xs : List α) :
    (b.fill is xs).get i = some x := by
  induction is generalizing b xs with
  | nil => simpa [fill] using h
  | cons j is ih =>
      cases xs with
      | nil => simpa [fill] using h
      | cons y ys =>
          rw [fill]
          split
          · exact ih h (y :: ys)
          · next hj =>
              have hne : j ≠ i := by
                rintro rfl
                simp [h] at hj
              exact ih ((get_set_ne b y hne).trans h) ys

/-- Values that are not more than the places that are left all get one, in their order. -/
theorem interleaves_fill {is : List Branch} (his : is.Nodup) {xs : List α}
    (hxs : xs.length ≤ (b.free is).length) :
    Interleaves xs (b.list is) ((b.fill is xs).list is) := by
  induction is generalizing b xs with
  | nil =>
      rw [List.eq_nil_of_length_eq_zero (Nat.le_zero.1 hxs)]
      exact .nil
  | cons i is ih =>
      obtain ⟨hi, his⟩ := List.nodup_cons.1 his
      cases xs with
      | nil => exact .refl_right _
      | cons x xs =>
          rw [fill, list_cons, list_cons]
          cases hget : b.get i with
          | some y =>
              rw [free, List.filter_cons_of_neg (by simp [hget])] at hxs
              rw [Option.isSome_some, if_pos rfl, get_fill hget]
              exact (ih his hxs).right
          | none =>
              rw [free, List.filter_cons_of_pos (by simp [hget])] at hxs
              rw [Option.isSome_none, if_neg Bool.false_ne_true,
                get_fill (get_set_self b x i)]
              have hleft : xs.length ≤ ((b.set x i).free is).length := by
                rw [free_set_of_notMem hi]
                exact Nat.le_of_succ_le_succ hxs
              have hrest := ih his hleft
              rw [list_set_of_notMem hi] at hrest
              exact hrest.left

/-! ## Related arguments -/

/-- The same parts were given, and they are related. -/
def Related (R : α → β → Prop) (b : Branches α) (d : Branches β) : Prop :=
  ∀ i, Option.Rel R (b.get i) (d.get i)

section

variable {R : α → β → Prop} {d : Branches β}

theorem related_empty : (empty : Branches α).Related R empty := by
  intro i
  cases i <;> exact .none

theorem Related.isSome_eq (h : b.Related R d) (i : Branch) :
    (b.get i).isSome = (d.get i).isSome := by
  have hi := h i
  generalize b.get i = x at hi
  generalize d.get i = y at hi
  cases hi <;> rfl

theorem Related.set (h : b.Related R d) {x : α} {y : β} (hxy : R x y) (i : Branch) :
    (b.set x i).Related R (d.set y i) := by
  intro j
  by_cases hij : i = j
  · subst hij
    rw [get_set_self, get_set_self]
    exact .some hxy
  · rw [get_set_ne b x hij, get_set_ne d y hij]
    exact h j

theorem Related.addNamed {xs : List (Arg α)} {ys : List (Arg β)} (hargs : RelatedArgs R xs ys)
    (h : b.Related R d) :
    SameOutcome (Related R) (b.addNamed function xs) (d.addNamed function ys) := by
  induction hargs generalizing b d with
  | nil => exact .ok h
  | @cons x y _ _ hxy _ ih =>
      obtain ⟨name, x⟩ := x
      obtain ⟨other, y⟩ := y
      obtain ⟨rfl, hxy⟩ := hxy
      cases name with
      | none => exact ih h
      | some name =>
          rw [Branches.addNamed, Branches.addNamed]
          cases Branch.ofName? name with
          | none => exact .error _
          | some i =>
              dsimp only
              rw [h.isSome_eq i]
              split
              · exact .error _
              · exact ih (h.set hxy i)

theorem Related.fill (is : List Branch) {xs : List α} {ys : List β} (hxs : List.Forall₂ R xs ys)
    (h : b.Related R d) : (b.fill is xs).Related R (d.fill is ys) := by
  induction is generalizing b d xs ys with
  | nil => simpa [Branches.fill] using h
  | cons i is ih =>
      cases hxs with
      | nil => simpa [Branches.fill] using h
      | cons hxy hrest =>
          rw [Branches.fill, Branches.fill, h.isSome_eq i]
          split
          · exact ih (.cons hxy hrest) h
          · exact ih hrest (h.set hxy i)

theorem related_unnamed {xs : List (Arg α)} {ys : List (Arg β)} (hargs : RelatedArgs R xs ys) :
    List.Forall₂ R (unnamed xs) (unnamed ys) := by
  induction hargs with
  | nil => exact .nil
  | @cons x y _ _ hxy _ ih =>
      obtain ⟨name, x⟩ := x
      obtain ⟨other, y⟩ := y
      obtain ⟨rfl, hxy⟩ := hxy
      cases name with
      | none => exact .cons hxy ih
      | some name => exact ih

end

/-! ## Properties of all parts -/

/-- All parts that were given satisfy a property, which may depend on the place. -/
def Forall (P : Branch → α → Prop) (b : Branches α) : Prop := ∀ i, ∀ x ∈ b.get i, P i x

variable {P : Branch → α → Prop}

theorem forall_empty : (empty : Branches α).Forall P := by
  intro i x hx
  cases i <;> cases hx

theorem Forall.set (hb : b.Forall P) {i : Branch} {x : α} (hx : P i x) : (b.set x i).Forall P := by
  intro j y hy
  by_cases hij : i = j
  · subst hij
    rw [get_set_self] at hy
    exact Option.some.inj hy ▸ hx
  · rw [get_set_ne b x hij] at hy
    exact hb j y hy

theorem Forall.addNamed {args : List (Arg α)}
    (hargs : ∀ arg ∈ args, ∀ name ∈ arg.name, ∀ i, Branch.ofName? name = some i → P i arg.value)
    (hb : b.Forall P) {named : Branches α} (hnamed : b.addNamed function args = .ok named) :
    named.Forall P := by
  induction args generalizing b with
  | nil =>
      cases hnamed
      exact hb
  | cons arg rest ih =>
      obtain ⟨hfirst, hrest⟩ := List.forall_mem_cons.1 hargs
      obtain ⟨name, x⟩ := arg
      cases name with
      | none => exact ih hrest hb hnamed
      | some name =>
          obtain ⟨i, hname, _, hnamed⟩ := addNamed_named_eq_ok_iff.1 hnamed
          exact ih hrest (hb.set (hfirst name rfl i hname)) hnamed

theorem Forall.fill (is : List Branch) {xs : List α} (hxs : ∀ x ∈ xs, ∀ i, P i x)
    (hb : b.Forall P) : (b.fill is xs).Forall P := by
  induction is generalizing b xs with
  | nil => simpa [Branches.fill] using hb
  | cons i is ih =>
      cases xs with
      | nil => simpa [Branches.fill] using hb
      | cons x xs =>
          obtain ⟨hfirst, hrest⟩ := List.forall_mem_cons.1 hxs
          rw [Branches.fill]
          split
          · exact ih hxs hb
          · exact ih hrest (hb.set (hfirst i))

end Branches

/-! ## Conditionals -/

namespace Choice

variable {function : String} {args : List (Arg α)} {choice : Choice α}

def map (f : α → β) (choice : Choice α) : Choice β :=
  ⟨f choice.condition, f choice.value, choice.otherwise.map f⟩

def get? (choice : Choice α) : Branch → Option α
  | .condition => some choice.condition
  | .value => some choice.value
  | .otherwise => choice.otherwise

def toList (choice : Choice α) : List α := Branch.all.filterMap choice.get?

theorem mem_toList {x : α} (h : x ∈ choice.toList) :
    x = choice.condition ∨ x = choice.value ∨ x ∈ choice.otherwise := by
  obtain ⟨condition, value, otherwise⟩ := choice
  cases otherwise <;> simpa [toList, Branch.all, get?, eq_comm] using h

theorem toChoice_eq_ok_iff {b : Branches α} :
    b.toChoice function = .ok choice ↔ b.get = choice.get? := by
  obtain ⟨condition, value, otherwise⟩ := b
  obtain ⟨c, v, o⟩ := choice
  have hget : (Branches.mk condition value otherwise).get = (Choice.mk c v o).get? ↔
      condition = some c ∧ value = some v ∧ otherwise = o := by
    constructor
    · exact fun h => ⟨congrFun h .condition, congrFun h .value, congrFun h .otherwise⟩
    · rintro ⟨rfl, rfl, rfl⟩
      funext i
      cases i <;> rfl
  rw [hget, Branches.toChoice]
  cases condition <;> cases value <;> simp

theorem exists_of_ofArgs (h : ofArgs function args = .ok choice) :
    ∃ named, Branches.empty.addNamed function args = .ok named ∧
      (named.fill Branch.all (Branches.unnamed args)).get = choice.get? := by
  obtain ⟨named, hnamed, hchoice⟩ := exists_of_bind_eq_ok h
  exact ⟨named, hnamed, toChoice_eq_ok_iff.1 hchoice⟩

/-- The parts of a conditional are among the arguments of the call. -/
theorem forall_of_ofArgs {P : α → Prop} (hargs : ∀ arg ∈ args, P arg.value)
    (h : ofArgs function args = .ok choice) :
    P choice.condition ∧ P choice.value ∧ ∀ x ∈ choice.otherwise, P x := by
  obtain ⟨named, hnamed, hget⟩ := exists_of_ofArgs h
  have hunnamed : ∀ x ∈ Branches.unnamed args, P x := by
    intro x hx
    have hmem := (Branches.interleaves_unnamed args).perm.mem_iff.2 (List.mem_append_left _ hx)
    obtain ⟨arg, harg, rfl⟩ := List.mem_map.1 hmem
    exact hargs arg harg
  have hfilled : (named.fill Branch.all (Branches.unnamed args)).Forall fun _ => P :=
    (Branches.forall_empty.addNamed (fun arg harg _ _ _ _ => hargs arg harg) hnamed).fill _
      fun x hx _ => hunnamed x hx
  rw [Branches.Forall, hget] at hfilled
  exact ⟨hfilled .condition _ rfl, hfilled .value _ rfl, hfilled .otherwise⟩

/-- Of no more arguments than there are places none is lost. -/
theorem interleaves_of_ofArgs (hlength : args.length ≤ 3) (h : ofArgs function args = .ok choice) :
    ∃ named, named.Perm (Branches.labelled args) ∧
      Interleaves (Branches.unnamed args) named choice.toList := by
  obtain ⟨named, hnamed, hget⟩ := exists_of_ofArgs h
  have hperm := Branches.perm_list_addNamed hnamed
  rw [show (Branches.empty : Branches α).list Branch.all = [] from rfl, List.append_nil] at hperm
  have hcount := (Branches.interleaves_unnamed args).perm.length_eq
  have hplaces := named.length_list_add_length_free Branch.all
  rw [List.length_map, List.length_append, ← hperm.length_eq] at hcount
  rw [show Branch.all.length = 3 from rfl] at hplaces
  have hleft : (Branches.unnamed args).length ≤ (named.free Branch.all).length := by omega
  have hlist : (named.fill Branch.all (Branches.unnamed args)).list Branch.all = choice.toList :=
    congrArg (Branch.all.filterMap ·) hget
  exact ⟨_, hperm, hlist ▸ Branches.interleaves_fill (by decide) hleft⟩

theorem perm_of_ofArgs (hlength : args.length ≤ 3) (h : ofArgs function args = .ok choice) :
    (args.map Arg.value).Perm choice.toList := by
  obtain ⟨named, hnamed, hlist⟩ := interleaves_of_ofArgs hlength h
  have hargs := (Branches.interleaves_unnamed args).perm
  exact hargs.trans ((hnamed.symm.append_left _).trans hlist.perm.symm)

theorem mem_of_ofArgs (hlength : args.length ≤ 3) (h : ofArgs function args = .ok choice) :
    ∀ arg ∈ args, arg.value = choice.condition ∨ arg.value = choice.value ∨
      arg.value ∈ choice.otherwise :=
  fun _ harg => mem_toList ((perm_of_ofArgs hlength h).mem_iff.1 (List.mem_map_of_mem harg))

structure Related (R : α → β → Prop) (x : Choice α) (y : Choice β) : Prop where
  condition : R x.condition y.condition
  value : R x.value y.value
  otherwise : Option.Rel R x.otherwise y.otherwise

theorem Related.eq_map {f : β → α} {other : Choice β}
    (h : Related (fun x y => x = f y) choice other) : choice = other.map f := by
  obtain ⟨condition, value, otherwise⟩ := choice
  obtain ⟨condition', value', otherwise'⟩ := other
  obtain ⟨rfl, rfl, hotherwise⟩ := h
  cases hotherwise with
  | none => rfl
  | some h => exact h ▸ rfl

theorem related_toChoice {R : α → β → Prop} {b : Branches α} {d : Branches β}
    (h : b.Related R d) :
    SameOutcome (Related R) (b.toChoice function) (d.toChoice function) := by
  have hcondition := h .condition
  have hvalue := h .value
  have hotherwise := h .otherwise
  obtain ⟨condition, value, otherwise⟩ := b
  obtain ⟨condition', value', otherwise'⟩ := d
  change Option.Rel R condition condition' at hcondition
  change Option.Rel R value value' at hvalue
  cases hcondition with
  | none => exact .error _
  | some hcondition =>
      cases hvalue with
      | none => exact .error _
      | some hvalue => exact .ok ⟨hcondition, hvalue, hotherwise⟩

/-- Which part an argument becomes depends on the names only. -/
theorem related_ofArgs {R : α → β → Prop} {xs : List (Arg α)} {ys : List (Arg β)}
    (hargs : RelatedArgs R xs ys) :
    SameOutcome (Related R) (ofArgs function xs) (ofArgs function ys) := by
  have hnamed : SameOutcome (Branches.Related R) (Branches.empty.addNamed function xs)
      (Branches.empty.addNamed function ys) := Branches.related_empty.addNamed hargs
  rw [ofArgs, ofArgs]
  generalize Branches.empty.addNamed function xs = r at hnamed ⊢
  generalize Branches.empty.addNamed function ys = r' at hnamed ⊢
  cases hnamed with
  | error e => exact .error e
  | ok h => exact related_toChoice (h.fill Branch.all (Branches.related_unnamed hargs))

end Choice

end SqlChain
