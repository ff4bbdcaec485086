import SqlChain.Proofs.Syntax.Lexer

/-!
# Windows among lexemes

The lexemes of a statement are in pairs of parentheses, and an `OVER` stands only behind a call. So
where there is one, the call that it belongs to is found by going back to the parenthesis that
closes it, and that call is not about distinct values.
-/

namespace SqlChain.Syntax

/-- The number of parentheses that are open behind a lexeme, where `n` are open before it. -/
def Lexeme.depth (n : Nat) (x : Lexeme) : Option Nat :=
  if x = .mark "(" then some (n + 1)
  else if x = .mark ")" then if n = 0 then none else some (n - 1)
  else some n

def depthAfter (n : Nat) (xs : List Lexeme) : Option Nat := xs.foldlM Lexeme.depth n

/-- Whether the lexemes close what they open, and nothing else. -/
def IsBalanced (xs : List Lexeme) : Prop := depthAfter 0 xs = some 0

instance (xs : List Lexeme) : Decidable (IsBalanced xs) := inferInstanceAs (Decidable (_ = _))

theorem depthAfter_append (n : Nat) (xs ys : List Lexeme) :
    depthAfter n (xs ++ ys) = (depthAfter n xs).bind (depthAfter · ys) :=
  List.foldlM_append

theorem depthAfter_open (n : Nat) (xs : List Lexeme) :
    depthAfter n (.mark "(" :: xs) = depthAfter (n + 1) xs := rfl

theorem depth_add {n m : Nat} {x : Lexeme} (h : x.depth n = some m) (k : Nat) :
    x.depth (n + k) = some (m + k) := by
  rw [Lexeme.depth] at h ⊢
  split_ifs at h ⊢ <;> simp only [Option.some.injEq] at h ⊢ <;> omega

/-- More may be open around the lexemes. -/
theorem depthAfter_add {n m : Nat} {xs : List Lexeme} (h : depthAfter n xs = some m) (k : Nat) :
    depthAfter (n + k) xs = some (m + k) := by
  induction xs generalizing n with
  | nil =>
      cases h
      rfl
  | cons x xs ih =>
      rw [depthAfter, List.foldlM_cons] at h ⊢
      obtain ⟨next, hnext, h⟩ := Option.bind_eq_some_iff.1 h
      rw [depth_add hnext]
      exact ih h

theorem IsBalanced.depthAfter_eq {xs : List Lexeme} (h : IsBalanced xs) (n : Nat) :
    depthAfter n xs = some n := by
  have hn := depthAfter_add h n
  rwa [Nat.zero_add] at hn

theorem IsBalanced.append {xs ys : List Lexeme} (hx : IsBalanced xs) (hy : IsBalanced ys) :
    IsBalanced (xs ++ ys) := by
  rw [IsBalanced, depthAfter_append, hx]
  exact hy

theorem IsBalanced.parenthesised {xs : List Lexeme} (h : IsBalanced xs) :
    IsBalanced (.mark "(" :: xs ++ [.mark ")"]) := by
  rw [IsBalanced, depthAfter_append, depthAfter_open, h.depthAfter_eq]
  rfl

/-- Nothing that is balanced ends with a parenthesis and more that is balanced. -/
theorem not_isBalanced_open {front back : List Lexeme} (hback : IsBalanced back) :
    ¬ IsBalanced (front ++ .mark "(" :: back) := by
  intro h
  rw [IsBalanced, depthAfter_append] at h
  obtain ⟨n, _, h⟩ := Option.bind_eq_some_iff.1 h
  rw [depthAfter_open, hback.depthAfter_eq] at h
  cases h

/-- What stands behind the last parenthesis that is left open. -/
theorem eq_of_append_open {front front' xs ys : List Lexeme} (hx : IsBalanced xs)
    (hy : IsBalanced ys) (h : front ++ .mark "(" :: xs = front' ++ .mark "(" :: ys) : xs = ys := by
  rcases List.append_eq_append_iff.1 h with ⟨between, _, h⟩ | ⟨between, _, h⟩
  · cases between with
    | nil =>
        cases h
        rfl
    | cons x between =>
        cases h
        exact (not_isBalanced_open hy hx).elim
  · cases between with
    | nil =>
        cases h
        rfl
    | cons x between =>
        cases h
        exact (not_isBalanced_open hx hy).elim

/-! ## Statements -/

/-- Whether a count of distinct values, with all that is counted, is followed by `OVER`. -/
def CountsDistinctOver (xs : List Lexeme) : Prop :=
  ∃ front inner back, IsBalanced inner ∧
    xs = front ++ [.word "COUNT", .mark "(", .word "DISTINCT"] ++ inner ++
      [.mark ")", .word "OVER"] ++ back

/-- Whether a lexeme may stand anywhere. -/
def Lexeme.isFree (x : Lexeme) : Bool :=
  !decide (x ∈ [.mark "(", .mark ")", .word "DISTINCT", .word "OVER"])

/-- How a statement is put together. An `OVER` stands behind a call, if windows are allowed. -/
inductive Nests (windows : Bool) : List Lexeme → Prop
  | nil : Nests windows []
  | lexeme {x : Lexeme} (h : x.isFree = true) : Nests windows [x]
  | append {xs ys : List Lexeme} (hx : Nests windows xs) (hy : Nests windows ys) :
      Nests windows (xs ++ ys)
  | parenthesised {xs : List Lexeme} (h : Nests windows xs) :
      Nests windows (.mark "(" :: xs ++ [.mark ")"])
  | distinct {xs : List Lexeme} (h : Nests windows xs) :
      Nests windows (.mark "(" :: (.word "DISTINCT" :: xs) ++ [.mark ")"])
  | windowed {w : String} {args : List Lexeme} (hwindows : windows = true)
      (hw : (Lexeme.word w).isFree = true) (hargs : Nests windows args) :
      Nests windows (.word w :: (.mark "(" :: args ++ [.mark ")"]) ++ [.word "OVER"])

namespace Nests

variable {windows : Bool} {xs : List Lexeme}

theorem cons {x : Lexeme} (hx : x.isFree = true) (h : Nests windows xs) : Nests windows (x :: xs) :=
  (lexeme hx).append h

theorem of_all (h : xs.all Lexeme.isFree = true) : Nests windows xs := by
  induction xs with
  | nil => exact .nil
  | cons x xs ih =>
      obtain ⟨hx, hxs⟩ := Bool.and_eq_true_iff.1 h
      exact cons hx (ih hxs)

theorem isBalanced (h : Nests windows xs) : IsBalanced xs := by
  have hword : ∀ {x : Lexeme}, x ≠ .mark "(" → x ≠ .mark ")" → IsBalanced [x] := by
    intro x hopen hclose
    simp [IsBalanced, depthAfter, Lexeme.depth, hopen, hclose]
  induction h with
  | nil => rfl
  | @lexeme x h => exact hword (by rintro rfl; cases h) (by rintro rfl; cases h)
  | append _ _ hx hy => exact hx.append hy
  | parenthesised _ ih => exact ih.parenthesised
  | distinct _ ih => exact IsBalanced.parenthesised ((hword (by simp) (by simp)).append ih)
  | @windowed w args _ _ _ ih =>
      exact (IsBalanced.append (hword (x := .word w) (by simp) (by simp)) ih.parenthesised).append
        (hword (by simp) (by simp))

theorem head?_ne (h : Nests windows xs) : xs.head? ≠ some (.word "DISTINCT") := by
  induction h with
  | nil => simp
  | @lexeme x h =>
      rintro ⟨⟩
      cases h
  | @append xs ys _ _ hx hy =>
      cases xs with
      | nil => exact hy
      | cons x xs => exact hx
  | parenthesised => simp
  | distinct => simp
  | @windowed w args _ hw =>
      rintro ⟨⟩
      cases hw

/-- Without windows there is no `OVER`. -/
theorem not_mem_over (h : Nests false xs) : .word "OVER" ∉ xs := by
  induction h with
  | nil => simp
  | @lexeme x h =>
      intro hmem
      cases List.mem_singleton.1 hmem
      cases h
  | append _ _ hx hy => exact List.not_mem_append hx hy
  | parenthesised _ ih => simpa using ih
  | distinct _ ih => simpa using ih
  | windowed hwindows => cases hwindows

/-- Behind a call with these arguments. -/
def IsCall (windows : Bool) (xs : List Lexeme) : Prop :=
  ∃ front w args, xs = front ++ .word w :: (.mark "(" :: args ++ [.mark ")"]) ∧ Nests windows args

/-- Every `OVER` stands behind a call. -/
def OversCalls (windows : Bool) (xs : List Lexeme) : Prop :=
  ∀ front back, xs = front ++ .word "OVER" :: back → IsCall windows front

theorem IsCall.append_left {ys : List Lexeme} (h : IsCall windows ys) (xs : List Lexeme) :
    IsCall windows (xs ++ ys) := by
  obtain ⟨front, w, args, rfl, hargs⟩ := h
  exact ⟨xs ++ front, w, args, (List.append_assoc ..).symm, hargs⟩

theorem OversCalls.of_not_mem (h : .word "OVER" ∉ xs) : OversCalls windows xs := by
  rintro front back rfl
  exact (h (by simp)).elim

theorem OversCalls.append {ys : List Lexeme} (hx : OversCalls windows xs)
    (hy : OversCalls windows ys) : OversCalls windows (xs ++ ys) := by
  intro front back h
  rcases List.append_eq_append_iff.1 h with ⟨between, rfl, hsecond⟩ | ⟨between, hfirst, hback⟩
  · exact (hy between back hsecond).append_left xs
  · cases between with
    | nil =>
        rw [List.append_nil] at hfirst
        have hcall := (hy [] back hback.symm).append_left xs
        rwa [List.append_nil, hfirst] at hcall
    | cons x between =>
        cases hback
        exact hx front between hfirst

theorem oversCalls (h : Nests windows xs) : OversCalls windows xs := by
  have hmark : ∀ s : String, OversCalls windows [.mark s] := fun _ => .of_not_mem (by simp)
  induction h with
  | nil => exact .of_not_mem (by simp)
  | @lexeme x h =>
      refine .of_not_mem fun hmem => ?_
      cases List.mem_singleton.1 hmem
      cases h
  | append _ _ hx hy => exact hx.append hy
  | parenthesised _ ih => exact ((hmark "(").append ih).append (hmark ")")
  | @distinct xs _ ih =>
      have hdistinct : OversCalls windows [.word "DISTINCT"] := .of_not_mem (by simp)
      exact (((hmark "(").append hdistinct).append ih).append (hmark ")")
  | @windowed w args _ hw hargs ih =>
      have hword : OversCalls windows [.word w] := by
        refine .of_not_mem fun hmem => ?_
        cases List.mem_singleton.1 hmem
        cases hw
      have hcall := hword.append (((hmark "(").append ih).append (hmark ")"))
      intro front back h
      rcases List.append_eq_append_iff.1 h with ⟨between, rfl, hover⟩ | ⟨between, hfirst, hback⟩
      · cases between with
        | nil => exact ⟨[], w, args, by simp, hargs⟩
        | cons x between => simp at hover
      · cases between with
        | nil => exact ⟨[], w, args, by simpa using hfirst.symm, hargs⟩
        | cons x between =>
            cases hback
            exact hcall front between hfirst

/-- No count of distinct values is followed by `OVER`. -/
theorem not_countsDistinctOver (h : Nests windows xs) : ¬ CountsDistinctOver xs := by
  rintro ⟨front, inner, back, hinner, heq⟩
  obtain ⟨before, w, args, hcall, hargs⟩ := h.oversCalls
    (front ++ [.word "COUNT", .mark "(", .word "DISTINCT"] ++ inner ++ [.mark ")"]) back
    (by simpa using heq)
  have hopen : (front ++ [.word "COUNT"]) ++ .mark "(" :: (.word "DISTINCT" :: inner) =
      (before ++ [.word w]) ++ .mark "(" :: args := by
    have hclosed : (front ++ [.word "COUNT"]) ++ .mark "(" :: (.word "DISTINCT" :: inner) ++
        [.mark ")"] = (before ++ [.word w]) ++ .mark "(" :: args ++ [.mark ")"] := by
      simpa using hcall
    exact List.append_cancel_right hclosed
  have hdistinct : IsBalanced [.word "DISTINCT"] := rfl
  rw [← eq_of_append_open (hdistinct.append hinner) hargs.isBalanced hopen] at hargs
  exact hargs.head?_ne rfl

end Nests

end SqlChain.Syntax
