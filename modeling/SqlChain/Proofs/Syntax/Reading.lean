import SqlChain.Proofs.Syntax.Grammar
import SqlChain.Proofs.Syntax.Leaf

/-!
# Readings

Lexemes that are read as a tree are put together to lexemes that are read as a larger one. A rule says
what has to follow: nothing that would belong to the tree as well.
-/

namespace SqlChain.Syntax

/-- Lists whose members are related in one way, where the last ones may be related in another. -/
inductive ForallToLast {α β : Type} (R S : α → β → Prop) : List α → List β → Prop where
  | nil : ForallToLast R S [] []
  | last {a : α} {b : β} (h : S a b) : ForallToLast R S [a] [b]
  | cons {a : α} {b : β} {as : List α} {bs : List β} (h : R a b) (hrest : ForallToLast R S as bs) :
      ForallToLast R S (a :: as) (b :: bs)

namespace ForallToLast

variable {α β γ : Type} {R S : α → β → Prop} {a : α} {b : β} {as : List α} {bs : List β}

theorem of_singleton (hRS : ∀ {a b}, R a b → S a b) (h : ForallToLast R S [a] (b :: bs)) :
    bs = [] ∧ S a b := by
  cases h with
  | last hab => exact ⟨rfl, hab⟩
  | cons hab hrest =>
      cases hrest
      exact ⟨rfl, hRS hab⟩

theorem of_cons_cons {a' : α} (h : ForallToLast R S (a :: a' :: as) (b :: bs)) :
    ∃ b' bs', bs = b' :: bs' ∧ R a b ∧ ForallToLast R S (a' :: as) (b' :: bs') := by
  cases h with
  | cons hab hrest => cases hrest with
    | last h => exact ⟨_, _, rfl, hab, .last h⟩
    | cons h hrest => exact ⟨_, _, rfl, hab, .cons h hrest⟩

theorem map_left {text : γ → α} {ts : List γ}
    (h : ForallToLast (fun t b => R (text t) b) (fun t b => S (text t) b) ts bs) :
    ForallToLast R S (ts.map text) bs := by
  induction h with
  | nil => exact .nil
  | last hb => exact .last hb
  | cons hb _ ih => exact .cons hb ih

theorem intersperse (hab : R a b) (h : ForallToLast R S as bs) :
    ForallToLast R S (as.intersperse a) (bs.intersperse b) := by
  induction h with
  | nil => exact .nil
  | last hlast => exact .last hlast
  | cons hfirst hrest ih =>
      cases hrest with
      | nil => exact .cons hfirst .nil
      | last => exact .cons hfirst (.cons hab ih)
      | cons => exact .cons hfirst (.cons hab ih)

end ForallToLast

namespace Grammar

variable {g : Grammar} {xs ys zs rest : List Lexeme} {t u v : Tree} {fuel least : Nat}

/-! ## What may follow -/

/-- What follows does not make a column or a constant into something else. -/
def Follows (rest : List Lexeme) : Prop :=
  rest.head? ≠ some (.mark ".") ∧ rest.head? ≠ some (.mark "(")

/-- No operator follows that binds as strongly as it is said. -/
def Stops (g : Grammar) (least : Nat) (rest : List Lexeme) : Prop :=
  ∀ s more, suffix? rest = some (s, more) → g.level s.name < least

structure Ends (rest : List Lexeme) : Prop where
  follows : Follows rest
  suffix : suffix? rest = none

theorem Ends.stops (h : Ends rest) (least : Nat) : g.Stops least rest := by
  intro s more hsuffix
  rw [h.suffix] at hsuffix
  cases hsuffix

theorem ends_nil : Ends [] := ⟨⟨by simp, by simp⟩, rfl⟩

theorem ends_mark {s : String} (hs : s ∈ [")", ","]) (rest : List Lexeme) :
    Ends (.mark s :: rest) := by
  have hall : ∀ s ∈ [")", ","], s ≠ "." ∧ s ≠ "(" ∧ s ∉ signs := by decide
  obtain ⟨hpoint, hopen, hsign⟩ := hall s hs
  exact ⟨⟨by simpa using hpoint, by simpa using hopen⟩, by rw [suffix?, if_neg hsign]⟩

theorem ends_word {w : String} (hw : w ∈ ["FROM", "FOR", "AS", "THEN", "ELSE", "END"])
    (rest : List Lexeme) : Ends (.word w :: rest) := by
  have hall : ∀ w ∈ ["FROM", "FOR", "AS", "THEN", "ELSE", "END"],
      ¬ (w = "AND" ∨ w = "OR") ∧ w ≠ "BETWEEN" ∧ w ≠ "IN" ∧ w ≠ "IS" := by decide
  obtain ⟨hlogic, hbetween, hin, his⟩ := hall w hw
  refine ⟨⟨by simp, by simp⟩, ?_⟩
  rw [suffix?, if_neg hlogic, if_neg hbetween, if_neg hin, if_neg (by simp [his])]

theorem eq_cons_of_expect {x : Lexeme} (h : expect x xs = some rest) : xs = x :: rest := by
  cases xs with
  | nil => cases h
  | cons y more =>
      rw [expect] at h
      split at h
      · next hy =>
          cases h
          rw [hy]
      · cases h

/-! ## Operands and expressions -/

/-- The lexemes are read as an operand, wherever they may stand. What is read as a `NOT` may not stand
in front of an operator that binds tighter. -/
def ReadsOperand (g : Grammar) (xs : List Lexeme) (t : Tree) (negated : Bool) : Prop :=
  ∀ fuel rest, 2 * xs.length ≤ fuel → Follows rest → (negated = true → g.Stops g.notLevel rest) →
    g.operand fuel (xs ++ rest) = some (t, rest)

/-- The lexemes are read as an expression of its own. -/
def ReadsExpr (g : Grammar) (xs : List Lexeme) (t : Tree) : Prop :=
  ∀ fuel rest, 2 * xs.length + 1 ≤ fuel → Ends rest → g.expr fuel 0 (xs ++ rest) = some (t, rest)

theorem continued_of_stops (h : g.Stops least rest) (hfuel : 0 < fuel) :
    g.continued fuel least t rest = some (t, rest) := by
  obtain ⟨n, rfl⟩ := Nat.exists_eq_succ_of_ne_zero (Nat.ne_of_gt hfuel)
  rw [continued]
  cases hsuffix : suffix? rest with
  | none => rfl
  | some r => exact if_pos (h r.1 r.2 hsuffix)

theorem ReadsOperand.length_pos {negated : Bool} (h : g.ReadsOperand xs t negated) :
    0 < xs.length := by
  cases xs with
  | nil =>
      have hnone := h 0 [] (by simp) ends_nil.follows fun _ => ends_nil.stops _
      rw [operand] at hnone
      cases hnone
  | cons => simp

/-- What is read wherever it may stand is read where less may follow. -/
theorem ReadsOperand.weaken (h : g.ReadsOperand xs t false) (negated : Bool) :
    g.ReadsOperand xs t negated :=
  fun fuel rest hfuel hrest _ => h fuel rest hfuel hrest (by simp)

theorem ReadsOperand.opened {negated : Bool} (h : g.ReadsOperand xs t negated) :
    g.ReadsOperand xs t true := by
  cases negated with
  | false => exact h.weaken true
  | true => exact h

/-- An operand at the beginning of an expression. -/
theorem ReadsOperand.expr_eq {negated : Bool} (h : g.ReadsOperand xs t negated) {n : Nat}
    (hfuel : 2 * xs.length ≤ n) (hfollows : Follows rest)
    (hnot : negated = true → g.Stops g.notLevel rest) (least : Nat) :
    g.expr (n + 1) least (xs ++ rest) = g.continued n least t rest := by
  rw [Grammar.expr, h n rest hfuel hfollows hnot]
  rfl

/-- An operand is a whole expression where no operator follows. -/
theorem ReadsOperand.expr {negated : Bool} (h : g.ReadsOperand xs t negated)
    (hfuel : 2 * xs.length + 1 ≤ fuel) (hfollows : Follows rest)
    (hnot : negated = true → g.Stops g.notLevel rest) (hstops : g.Stops least rest) :
    g.expr fuel least (xs ++ rest) = some (t, rest) := by
  obtain ⟨n, rfl⟩ := Nat.exists_eq_add_of_le' (Nat.le_trans (Nat.le_add_left 1 _) hfuel)
  have hpos := h.length_pos
  rw [h.expr_eq (by omega) hfollows hnot]
  exact continued_of_stops hstops (by omega)

theorem ReadsOperand.readsExpr {negated : Bool} (h : g.ReadsOperand xs t negated) :
    g.ReadsExpr xs t := fun _ _ hfuel hrest =>
  h.expr hfuel hrest.follows (fun _ => hrest.stops _) (hrest.stops _)

theorem ReadsExpr.parenthesised (h : g.ReadsExpr xs t) :
    g.ReadsOperand (.mark "(" :: xs ++ [.mark ")"]) t false := by
  intro fuel rest hfuel _ _
  simp only [List.cons_append, List.length_cons, List.length_append, List.length_nil] at hfuel
  obtain ⟨n, rfl⟩ := Nat.exists_eq_succ_of_ne_zero (show fuel ≠ 0 by omega)
  have hread := h n (.mark ")" :: rest) (by omega) (ends_mark (by simp) rest)
  have happend : (.mark "(" :: xs ++ [.mark ")"]) ++ rest =
      .mark "(" :: (xs ++ .mark ")" :: rest) := by simp
  rw [happend, operand, if_neg (by decide), if_pos rfl, hread]
  rfl

/-! ## Leaves and signs -/

theorem readsOperand_column (qualifier : Option String) (name : String) :
    g.ReadsOperand (columnLexemes qualifier name) (.column qualifier name) false := by
  intro fuel rest hfuel hrest _
  cases qualifier with
  | none =>
      simp only [columnLexemes, List.length_cons, List.length_nil] at hfuel
      obtain ⟨n, rfl⟩ := Nat.exists_eq_succ_of_ne_zero (show fuel ≠ 0 by omega)
      simp only [columnLexemes, List.singleton_append]
      rw [operand]
      rintro t more rfl
      exact hrest.1 rfl
  | some qualifier =>
      simp only [columnLexemes, List.length_cons, List.length_nil] at hfuel
      obtain ⟨n, rfl⟩ := Nat.exists_eq_succ_of_ne_zero (show fuel ≠ 0 by omega)
      rfl

theorem ReadsOperand.negate {negated : Bool} (h : g.ReadsOperand xs t negated) :
    g.ReadsOperand (.mark "-" :: xs) (.negate t) negated := by
  intro fuel rest hfuel hrest hnot
  simp only [List.length_cons] at hfuel
  obtain ⟨n, rfl⟩ := Nat.exists_eq_succ_of_ne_zero (show fuel ≠ 0 by omega)
  rw [List.cons_append, operand, if_pos rfl, h n rest (by omega) hrest hnot]
  rfl

theorem literalTree_of_head_ne {text : String} (h : text.toList.head? ≠ some '-') :
    literalTree text = .literal text := by
  rw [literalTree]
  split
  · next digits hlist => simp [hlist] at h
  · rfl

theorem readsOperand_literal {text : String} (h : IsLiteral text xs) :
    g.ReadsOperand xs (literalTree text) false := by
  intro fuel rest hfuel hrest hnot
  have hone : ∀ {x : Lexeme}, 2 * [x].length ≤ fuel → ∃ n, fuel = n + 1 := by
    intro x hx
    exact Nat.exists_eq_succ_of_ne_zero (by simp only [List.length_singleton] at hx; omega)
  cases h with
  | word hword =>
      obtain ⟨n, rfl⟩ := hone hfuel
      have hall : ∀ w ∈ constants,
          w ≠ "NOT" ∧ w ≠ "CASE" ∧ w ∉ reserved ∧ w.toList.head? ≠ some '-' := by decide
      obtain ⟨hnotWord, hcase, hreserved, hhead⟩ := hall text hword
      have hopen : expect (.mark "(") rest = none := by
        cases rest with
        | nil => rfl
        | cons x rest => exact if_neg fun hx => hrest.2 (by simp [hx])
      rw [literalTree_of_head_ne hhead, List.singleton_append, operand, if_neg hnotWord,
        if_neg hcase, if_neg hreserved, hopen]
      exact if_pos hword
  | number hhead =>
      obtain ⟨n, rfl⟩ := hone hfuel
      rw [literalTree_of_head_ne hhead]
      rfl
  | string hhead =>
      obtain ⟨n, rfl⟩ := hone hfuel
      rw [literalTree_of_head_ne hhead]
      rfl
  | @negative s hs =>
      have hnumber : g.ReadsOperand [.number s] (.literal s) false := by
        intro fuel rest hfuel _ _
        obtain ⟨n, rfl⟩ := Nat.exists_eq_succ_of_ne_zero (show fuel ≠ 0 by simp at hfuel; omega)
        rfl
      have htree : literalTree text = .negate (.literal s) := by
        rw [hs, literalTree]
        simp
      rw [htree]
      exact hnumber.negate fuel rest hfuel hrest hnot

theorem ReadsOperand.not (h : g.ReadsOperand xs t false) :
    g.ReadsOperand (.word "NOT" :: xs) (.not t) true := by
  intro fuel rest hfuel hrest hstops
  simp only [List.length_cons] at hfuel
  obtain ⟨n, rfl⟩ := Nat.exists_eq_succ_of_ne_zero (show fuel ≠ 0 by omega)
  rw [List.cons_append, operand, if_pos rfl,
    h.expr (by omega) hrest (by simp) (hstops rfl)]
  rfl

/-! ## Operators -/

/-- The lexeme of an operator. -/
def operatorLexeme (op : String) : Lexeme :=
  if op = "AND" ∨ op = "OR" then .word op else .mark op

def IsOperator (op : String) : Prop := op = "AND" ∨ op = "OR" ∨ op ∈ signs

instance (op : String) : Decidable (IsOperator op) := inferInstanceAs (Decidable (_ ∨ _))

theorem suffix?_operator {op : String} (hop : IsOperator op) (rest : List Lexeme) :
    suffix? (operatorLexeme op :: rest) = some (.operator op, rest) := by
  by_cases hlogic : op = "AND" ∨ op = "OR"
  · rw [operatorLexeme, if_pos hlogic, suffix?, if_pos hlogic]
  · have hsign : op ∈ signs := (or_assoc.2 hop).resolve_left hlogic
    rw [operatorLexeme, if_neg hlogic, suffix?, if_pos hsign]

theorem follows_operator {op : String} (hop : IsOperator op) (rest : List Lexeme) :
    Follows (operatorLexeme op :: rest) := by
  have hall : ∀ s ∈ signs, s ≠ "." ∧ s ≠ "(" := by decide
  by_cases hlogic : op = "AND" ∨ op = "OR"
  · rw [operatorLexeme, if_pos hlogic]
    exact ⟨by simp, by simp⟩
  · obtain ⟨hpoint, hopen⟩ := hall op ((or_assoc.2 hop).resolve_left hlogic)
    rw [operatorLexeme, if_neg hlogic]
    exact ⟨by simpa using hpoint, by simpa using hopen⟩

theorem stops_operator {op : String} (hop : IsOperator op) (hlevel : g.level op < least)
    (rest : List Lexeme) : g.Stops least (operatorLexeme op :: rest) := by
  intro s more hsuffix
  rw [suffix?_operator hop] at hsuffix
  cases hsuffix
  exact hlevel

theorem stops_of_guards {op : String} (hguards : guards op = true) (rest : List Lexeme) :
    g.Stops g.notLevel (operatorLexeme op :: rest) := by
  have hop : op = "AND" ∨ op = "OR" := by simpa [guards] using hguards
  refine stops_operator (or_assoc.1 (.inl hop)) ?_ rest
  rcases hop with rfl | rfl
  · exact g.and_lt
  · exact g.or_lt

theorem continued_operator {op : String} (hop : IsOperator op) (hlevel : least ≤ g.level op)
    (n : Nat) (left : Tree) (rest : List Lexeme) :
    g.continued (n + 1) least left (operatorLexeme op :: rest) = (do
      let (right, rest) ← g.expr n (g.rightLevel op) rest
      g.continued n least (.binary op left right) rest) := by
  rw [continued, suffix?_operator hop]
  exact if_neg (Nat.not_lt.2 hlevel)

theorem ReadsOperand.binary {op : String} (hop : IsOperator op) {left right : Bool}
    (hx : g.ReadsOperand xs t left) (hy : g.ReadsOperand ys u right)
    (hguards : guards op = true ∨ left = false) :
    g.ReadsExpr (xs ++ operatorLexeme op :: ys) (.binary op t u) := by
  intro fuel rest hfuel hrest
  simp only [List.length_append, List.length_cons] at hfuel
  obtain ⟨n, rfl⟩ := Nat.exists_eq_add_of_le' (show 2 ≤ fuel by omega)
  have hnot : left = true → g.Stops g.notLevel (operatorLexeme op :: (ys ++ rest)) := fun hleft =>
    stops_of_guards (hguards.resolve_right (by simp [hleft])) _
  rw [List.append_assoc, List.cons_append, hx.expr_eq (by omega) (follows_operator hop _) hnot,
    continued_operator hop (Nat.zero_le _), hy.expr (by omega) hrest.follows
      (fun _ => hrest.stops _) (hrest.stops _)]
  exact continued_of_stops (hrest.stops 0) (by have := hx.length_pos; omega)

/-! ## Chains of one operator -/

section

variable {op : String} (hop : IsOperator op) {xss : List (List Lexeme)} {ts : List Tree}

include hop

theorem follows_chain (hrest : Ends rest) :
    Follows (xss.flatMap (operatorLexeme op :: ·) ++ rest) := by
  cases xss with
  | nil => exact hrest.follows
  | cons xs xss =>
      rw [List.flatMap_cons, List.append_assoc]
      exact follows_operator hop _

theorem stops_chain (hlevel : g.level op < least) (hrest : Ends rest) :
    g.Stops least (xss.flatMap (operatorLexeme op :: ·) ++ rest) := by
  cases xss with
  | nil => exact hrest.stops least
  | cons xs xss =>
      rw [List.flatMap_cons, List.append_assoc]
      exact stops_operator hop hlevel _

theorem continued_chain (hright : g.groupsRight op = false)
    (h : ForallToLast (g.ReadsOperand · · false) (g.ReadsOperand · · true) xss ts) (left : Tree)
    (hrest : Ends rest)
    (hfuel : 2 * (xss.flatMap (operatorLexeme op :: ·)).length + 1 ≤ fuel) :
    g.continued fuel 0 left (xss.flatMap (operatorLexeme op :: ·) ++ rest) =
      some (g.chain op left ts, rest) := by
  induction h generalizing left fuel with
  | nil => exact continued_of_stops (hrest.stops 0) (by omega)
  | @last xs t hxs =>
      simp only [List.flatMap_cons, List.flatMap_nil, List.append_nil, List.length_cons] at hfuel ⊢
      obtain ⟨n, rfl⟩ := Nat.exists_eq_add_of_le' (show 2 ≤ fuel by omega)
      rw [List.cons_append, continued_operator hop (Nat.zero_le _),
        hxs.expr (by omega) hrest.follows (fun _ => hrest.stops _) (hrest.stops _)]
      simp only [Option.bind_eq_bind, Option.bind_some, chain, hright, Bool.false_eq_true, if_false]
      exact continued_of_stops (hrest.stops 0) (by omega)
  | @cons xs t xss ts hxs hxss ih =>
      rw [List.flatMap_cons, List.cons_append, List.length_cons, List.length_append] at hfuel
      obtain ⟨n, rfl⟩ := Nat.exists_eq_add_of_le' (show 1 ≤ fuel by omega)
      have hstops : g.Stops (g.rightLevel op) (xss.flatMap (operatorLexeme op :: ·) ++ rest) :=
        stops_chain hop (by simp [rightLevel, hright]) hrest
      rw [List.flatMap_cons, List.cons_append, List.cons_append, List.append_assoc,
        continued_operator hop (Nat.zero_le _),
        hxs.expr (by omega) (follows_chain hop hrest) (by simp) hstops]
      simp only [Option.bind_eq_bind, Option.bind_some, chain, hright, Bool.false_eq_true, if_false]
      exact ih _ (by omega)

theorem expr_chain (hright : g.groupsRight op = true) (hleast : least ≤ g.level op)
    (h : ForallToLast (g.ReadsOperand · · false) (g.ReadsOperand · · true) (xs :: xss) (t :: ts))
    (hrest : Ends rest)
    (hfuel : 2 * (xs.length + (xss.flatMap (operatorLexeme op :: ·)).length) + 1 ≤ fuel) :
    g.expr fuel least (xs ++ (xss.flatMap (operatorLexeme op :: ·) ++ rest)) =
      some (g.chain op t ts, rest) := by
  induction xss generalizing xs t ts least fuel with
  | nil =>
      obtain ⟨rfl, hxs⟩ := h.of_singleton ReadsOperand.opened
      exact hxs.expr (by simpa using hfuel) hrest.follows (fun _ => hrest.stops _) (hrest.stops _)
  | cons ys xss ih =>
      obtain ⟨u, us, rfl, hxs, hys⟩ := h.of_cons_cons
      rw [List.flatMap_cons, List.cons_append, List.length_cons, List.length_append] at hfuel
      obtain ⟨n, rfl⟩ := Nat.exists_eq_add_of_le' (show 2 ≤ fuel by omega)
      have hlevel : g.rightLevel op ≤ g.level op := by simp [rightLevel, hright]
      rw [hxs.expr_eq (by omega) (follows_chain hop hrest) (by simp), List.flatMap_cons,
        List.cons_append, List.cons_append, List.append_assoc, continued_operator hop hleast,
        ih hlevel hys (by omega)]
      simp only [Option.bind_eq_bind, Option.bind_some, chain, hright, if_true]
      exact continued_of_stops (hrest.stops _) (by have := hxs.length_pos; omega)

/-- Operands with one operator between them, of which the last may be a `NOT`. -/
theorem readsExpr_chain
    (h : ForallToLast (g.ReadsOperand · · false) (g.ReadsOperand · · true) (xs :: xss) (t :: ts)) :
    g.ReadsExpr (xs ++ xss.flatMap (operatorLexeme op :: ·)) (g.chain op t ts) := by
  intro fuel rest hfuel hrest
  rw [List.length_append] at hfuel
  rw [List.append_assoc]
  cases hright : g.groupsRight op with
  | true => exact expr_chain hop hright (Nat.zero_le _) h hrest hfuel
  | false =>
      cases xss with
      | nil =>
          obtain ⟨rfl, hxs⟩ := h.of_singleton ReadsOperand.opened
          exact hxs.readsExpr fuel rest (by simpa using hfuel) hrest
      | cons ys xss =>
          obtain ⟨u, us, rfl, hxs, hys⟩ := h.of_cons_cons
          obtain ⟨n, rfl⟩ := Nat.exists_eq_add_of_le' (show 1 ≤ fuel by omega)
          rw [hxs.expr_eq (by omega) (follows_chain hop hrest) (by simp)]
          exact continued_chain hop hright hys t hrest (by have := hxs.length_pos; omega)

end

/-! ## Tests -/

theorem ReadsOperand.isNull (h : g.ReadsOperand xs t false) :
    g.ReadsExpr (xs ++ [.word "IS", .word "NULL"]) (.isNull t) := by
  intro fuel rest hfuel hrest
  simp only [List.length_append, List.length_cons, List.length_nil] at hfuel
  obtain ⟨n, rfl⟩ := Nat.exists_eq_add_of_le' (show 2 ≤ fuel by omega)
  rw [List.append_assoc, h.expr_eq (by omega) ⟨by simp, by simp⟩ (by simp)]
  have hnull : g.continued (n + 1) 0 t (.word "IS" :: .word "NULL" :: rest) =
      g.continued n 0 (.isNull t) rest := by
    rw [continued]
    rfl
  exact hnull.trans (continued_of_stops (hrest.stops 0) (by omega))

theorem ReadsOperand.between {low high : Bool} (hx : g.ReadsOperand xs t false)
    (hy : g.ReadsOperand ys u low) (hz : g.ReadsOperand zs v high) :
    g.ReadsExpr (xs ++ .word "BETWEEN" :: (ys ++ .word "AND" :: zs)) (.between t u v) := by
  intro fuel rest hfuel hrest
  simp only [List.length_append, List.length_cons] at hfuel
  obtain ⟨n, rfl⟩ := Nat.exists_eq_add_of_le' (show 2 ≤ fuel by omega)
  have hand : g.Stops g.lowLevel (.word "AND" :: (zs ++ rest)) :=
    stops_operator (show IsOperator "AND" from .inl rfl) (by rw [lowLevel]; omega) _
  have hguards : g.Stops g.notLevel (.word "AND" :: (zs ++ rest)) :=
    stops_of_guards (show guards "AND" = true by decide) _
  have hlow : g.expr n g.lowLevel (ys ++ .word "AND" :: (zs ++ rest)) =
      some (u, .word "AND" :: (zs ++ rest)) :=
    hy.expr (by omega) ⟨by simp, by simp⟩ (fun _ => hguards) hand
  have hhigh : g.expr n (g.level "BETWEEN" + 1) (zs ++ rest) = some (v, rest) :=
    hz.expr (by omega) hrest.follows (fun _ => hrest.stops _) (hrest.stops _)
  have hbetween : g.continued (n + 1) 0 t (.word "BETWEEN" :: (ys ++ .word "AND" :: (zs ++ rest))) =
      g.continued n 0 (.between t u v) rest := by
    simp [continued, suffix?, hlow, expect, hhigh]
  simp only [List.append_assoc, List.cons_append]
  rw [hx.expr_eq (by omega) ⟨by simp, by simp⟩ (by simp), hbetween]
  exact continued_of_stops (hrest.stops 0) (by have := hx.length_pos; omega)

/-! ## Lists -/

/-- Lexemes with a separator between them. -/
def joined (separator : Lexeme) : List (List Lexeme) → List Lexeme
  | [] => []
  | xs :: rest => xs ++ rest.flatMap (separator :: ·)

theorem joined_cons_cons (separator : Lexeme) (xs ys : List Lexeme) (rest : List (List Lexeme)) :
    joined separator (xs :: ys :: rest) = xs ++ separator :: joined separator (ys :: rest) := by
  simp [joined]

def ReadsItems (g : Grammar) (xs : List Lexeme) (ts : List Tree) : Prop :=
  ∀ fuel rest, 2 * xs.length + 2 ≤ fuel → Ends rest → expect (.mark ",") rest = none →
    g.items fuel (xs ++ rest) = some (ts, rest)

theorem readsItems {xss : List (List Lexeme)} {ts : List Tree}
    (h : List.Forall₂ g.ReadsExpr xss ts) (hsome : xss ≠ []) :
    g.ReadsItems (joined (.mark ",") xss) ts := by
  induction h with
  | nil => exact (hsome rfl).elim
  | @cons xs t xss ts hxs hxss ih =>
      intro fuel rest hfuel hrest hcomma
      obtain ⟨n, rfl⟩ := Nat.exists_eq_add_of_le' (show 1 ≤ fuel by omega)
      cases hxss with
      | nil =>
          simp only [joined, List.flatMap_nil, List.append_nil] at hfuel ⊢
          rw [items, hxs n rest (by omega) hrest]
          simp [hcomma]
      | @cons ys u yss us hys hyss =>
          rw [joined_cons_cons] at hfuel ⊢
          simp only [List.length_append, List.length_cons] at hfuel
          rw [List.append_assoc, List.cons_append, items,
            hxs n _ (by omega) (ends_mark (by simp) _)]
          simp only [Option.bind_eq_bind, Option.bind_some, expect, if_true]
          rw [ih (by simp) n rest (by omega) hrest hcomma]
          rfl

/-- The marks and words that an argument never begins with. -/
def openers : List Lexeme := [.mark ")", .mark "*", .word "DISTINCT"]

theorem ReadsExpr.head_ne (h : g.ReadsExpr xs t) {x : Lexeme} (hx : x ∈ openers) :
    xs.head? ≠ some x := by
  intro hhead
  obtain ⟨more, rfl⟩ := List.head?_eq_some_iff.1 hhead
  have hread := h (2 * more.length + 1 + 2) [] (by simp; omega) ends_nil
  have hnone : g.operand (2 * more.length + 1 + 1) (x :: (more ++ [])) = none := by
    simp only [openers, List.mem_cons, List.not_mem_nil, or_false] at hx
    rcases hx with rfl | rfl | rfl <;> rw [operand] <;> rfl
  rw [List.cons_append, Grammar.expr, hnone] at hread
  cases hread

theorem ReadsOperand.member (hx : g.ReadsOperand xs t false) {ys : List Lexeme} {us : List Tree}
    (hys : g.ReadsItems ys us) :
    g.ReadsExpr (xs ++ .word "IN" :: .mark "(" :: (ys ++ [.mark ")"])) (.member t us) := by
  intro fuel rest hfuel hrest
  simp only [List.length_append, List.length_cons, List.length_nil] at hfuel
  obtain ⟨n, rfl⟩ := Nat.exists_eq_add_of_le' (show 2 ≤ fuel by omega)
  have hitems : g.items n (ys ++ .mark ")" :: rest) = some (us, .mark ")" :: rest) :=
    hys n _ (by omega) (ends_mark (by simp) rest) rfl
  have hmember : g.continued (n + 1) 0 t (.word "IN" :: .mark "(" :: (ys ++ .mark ")" :: rest)) =
      g.continued n 0 (.member t us) rest := by
    simp [continued, suffix?, hitems, expect]
  simp only [List.append_assoc, List.cons_append, List.nil_append]
  rw [hx.expr_eq (by omega) ⟨by simp, by simp⟩ (by simp), hmember]
  exact continued_of_stops (hrest.stops 0) (by omega)

/-- A candidate by itself is a list of one, and so is one in parentheses. -/
theorem ReadsOperand.member_operand (hx : g.ReadsOperand xs t false) {ys : List Lexeme} {u : Tree}
    {negated : Bool} (hy : g.ReadsOperand ys u negated) :
    g.ReadsExpr (xs ++ .word "IN" :: ys) (.member t [u]) := by
  intro fuel rest hfuel hrest
  simp only [List.length_append, List.length_cons] at hfuel
  have hpos := hy.length_pos
  obtain ⟨n, rfl⟩ := Nat.exists_eq_add_of_le' (show 3 ≤ fuel by omega)
  have hread : g.operand (n + 1) (ys ++ rest) = some (u, rest) :=
    hy (n + 1) rest (by omega) hrest.follows fun _ => hrest.stops _
  have hmember : g.continued (n + 2) 0 t (.word "IN" :: (ys ++ rest)) =
      g.continued (n + 1) 0 (.member t [u]) rest := by
    obtain ⟨y, more, hcons⟩ := List.exists_cons_of_ne_nil (List.ne_nil_of_length_pos hpos)
    simp only [hcons, List.cons_append] at hread ⊢
    by_cases hopen : y = .mark "("
    · subst hopen
      rw [operand, if_neg (by decide), if_pos rfl] at hread
      obtain ⟨⟨v, left⟩, hexpr, hread⟩ := Option.bind_eq_some_iff.1 hread
      obtain ⟨behind, hclose, hread⟩ := Option.bind_eq_some_iff.1 hread
      cases hread
      obtain rfl := eq_cons_of_expect hclose
      have hitems : g.items (n + 1) (more ++ rest) = some ([u], .mark ")" :: rest) := by
        rw [items, hexpr]
        simp [expect]
      simp [continued, suffix?, expect, hitems]
    · simp [continued, suffix?, expect, hopen, hread]
  rw [List.append_assoc, List.cons_append, hx.expr_eq (by omega) ⟨by simp, by simp⟩ (by simp),
    hmember]
  exact continued_of_stops (hrest.stops 0) (by omega)

/-! ## Calls -/

/-- Whether a word is the name of a function that is called without words between its arguments. -/
def IsFunction (w : String) : Prop := w ∉ "NOT" :: "CASE" :: "CAST" :: reserved

instance (w : String) : Decidable (IsFunction w) := inferInstanceAs (Decidable (¬ _))

theorem IsFunction.ne_cast {w : String} (hw : IsFunction w) : w ≠ "CAST" := by
  rintro rfl
  exact hw (by simp)

theorem IsFunction.operand {w : String} (hw : IsFunction w) (n : Nat) (rest : List Lexeme) :
    g.operand (n + 1) (.word w :: .mark "(" :: rest) = g.called n w rest := by
  simp only [IsFunction, List.mem_cons, not_or] at hw
  rw [Grammar.operand, if_neg hw.1, if_neg hw.2.1, if_neg hw.2.2.2]
  rfl

theorem readsOperand_called {w : String} (hw : IsFunction w)
    (h : ∀ fuel rest, 2 * xs.length + 4 ≤ fuel →
      g.called fuel w (xs ++ .mark ")" :: rest) = some (t, rest)) :
    g.ReadsOperand (.word w :: .mark "(" :: (xs ++ [.mark ")"])) t false := by
  intro fuel rest hfuel _ _
  simp only [List.length_append, List.length_cons, List.length_nil] at hfuel
  obtain ⟨n, rfl⟩ := Nat.exists_eq_add_of_le' (show 1 ≤ fuel by omega)
  have happend : (.word w :: .mark "(" :: (xs ++ [.mark ")"])) ++ rest =
      .word w :: .mark "(" :: (xs ++ .mark ")" :: rest) := by simp
  rw [happend, hw.operand]
  exact h n rest (by omega)

theorem called_items {w : String} (hw : IsFunction w) (hhead : ∀ x ∈ openers, xs.head? ≠ some x)
    (n : Nat) :
    g.called (n + 1) w xs = (do
      let (args, rest) ← g.items n xs
      match args, expect (.word "FROM") rest with
      | [t], some rest =>
        let (start, rest) ← g.expr n 0 rest
        let (length, rest) ← g.expr n 0 (← expect (.word "FOR") rest)
        return (.call w [t, start, length], ← expect (.mark ")") rest)
      | args, _ => return (.call w args, ← expect (.mark ")") rest)) := by
  have hne : ∀ x ∈ openers, ∀ more, xs ≠ x :: more := by
    rintro x hx more rfl
    exact hhead x hx rfl
  have hclose := hne (.mark ")") (by simp [openers])
  have hstar := hne (.mark "*") (by simp [openers])
  have hdistinct := hne (.word "DISTINCT") (by simp [openers])
  rw [called.eq_def]
  dsimp only
  rw [if_neg hw.ne_cast]
  split
  · exact absurd rfl (hclose _)
  · exact absurd rfl (hstar _)
  · exact absurd rfl (hdistinct _)
  · rfl

theorem head_joined_ne {xss : List (List Lexeme)} {ts : List Tree}
    (h : List.Forall₂ g.ReadsExpr xss ts) (hsome : xss ≠ []) (rest : List Lexeme) :
    ∀ x ∈ openers, (joined (.mark ",") xss ++ rest).head? ≠ some x := by
  intro x hx
  cases h with
  | nil => exact (hsome rfl).elim
  | @cons xs t xss ts hxs hxss =>
      have hne := hxs.head_ne hx
      cases xs with
      | nil =>
          have hread := hxs 1 [] (by simp) ends_nil
          rw [List.nil_append, Grammar.expr, Grammar.operand] at hread
          cases hread
      | cons y ys => simpa [joined] using hne

theorem readsOperand_call {w : String} (hw : IsFunction w) {xss : List (List Lexeme)}
    {ts : List Tree} (h : List.Forall₂ g.ReadsExpr xss ts) :
    g.ReadsOperand (.word w :: .mark "(" :: (joined (.mark ",") xss ++ [.mark ")"]))
      (.call w ts) false := by
  refine readsOperand_called hw fun fuel rest hfuel => ?_
  obtain ⟨n, rfl⟩ := Nat.exists_eq_add_of_le' (show 1 ≤ fuel by omega)
  by_cases hsome : xss = []
  · subst hsome
    cases h
    rw [joined, List.nil_append, called, if_neg hw.ne_cast]
  · have hitems := readsItems h hsome n (.mark ")" :: rest) (by omega) (ends_mark (by simp) rest) rfl
    rw [called_items hw (head_joined_ne h hsome _), hitems]
    simp [expect]

theorem readsOperand_callAll {w : String} (hw : IsFunction w) :
    g.ReadsOperand [.word w, .mark "(", .mark "*", .mark ")"] (.callAll w) false := by
  refine @readsOperand_called g [.mark "*"] _ w hw fun fuel rest hfuel => ?_
  obtain ⟨n, rfl⟩ := Nat.exists_eq_add_of_le' (show 1 ≤ fuel by omega)
  rw [List.singleton_append, called, if_neg hw.ne_cast]
  rfl

theorem readsOperand_callDistinct {w : String} (hw : IsFunction w) {xss : List (List Lexeme)}
    {ts : List Tree} (h : List.Forall₂ g.ReadsExpr xss ts) (hsome : xss ≠ []) :
    g.ReadsOperand
      (.word w :: .mark "(" :: (.word "DISTINCT" :: joined (.mark ",") xss ++ [.mark ")"]))
      (.callDistinct w ts) false := by
  refine readsOperand_called hw fun fuel rest hfuel => ?_
  rw [List.length_cons] at hfuel
  obtain ⟨n, rfl⟩ := Nat.exists_eq_add_of_le' (show 1 ≤ fuel by omega)
  have hitems := readsItems h hsome n (.mark ")" :: rest) (by omega) (ends_mark (by simp) rest) rfl
  rw [List.cons_append, called, if_neg hw.ne_cast, hitems]
  rfl

/-- The start and the length of a part of a string, with words in front of them. -/
theorem readsOperand_part {w : String} (hw : IsFunction w) (hx : g.ReadsExpr xs t)
    (hy : g.ReadsExpr ys u) (hz : g.ReadsExpr zs v) :
    g.ReadsOperand
      (.word w :: .mark "(" :: ((xs ++ .word "FROM" :: (ys ++ .word "FOR" :: zs)) ++ [.mark ")"]))
      (.call w [t, u, v]) false := by
  refine readsOperand_called hw fun fuel rest hfuel => ?_
  simp only [List.length_append, List.length_cons] at hfuel
  obtain ⟨n, rfl⟩ := Nat.exists_eq_add_of_le' (show 1 ≤ fuel by omega)
  have hone : List.Forall₂ g.ReadsExpr [xs] [t] := .cons hx .nil
  have hitems : g.items n (xs ++ .word "FROM" :: (ys ++ .word "FOR" :: (zs ++ .mark ")" :: rest))) =
      some ([t], .word "FROM" :: (ys ++ .word "FOR" :: (zs ++ .mark ")" :: rest))) := by
    have hjoined : joined (.mark ",") [xs] = xs := by simp [joined]
    have hread := readsItems hone (by simp) n
      (.word "FROM" :: (ys ++ .word "FOR" :: (zs ++ .mark ")" :: rest)))
      (by rw [hjoined]; omega) (ends_word (by simp) _) rfl
    rwa [hjoined] at hread
  have hhead := head_joined_ne hone (by simp)
    (.word "FROM" :: (ys ++ .word "FOR" :: (zs ++ .mark ")" :: rest)))
  have hstart : g.expr n 0 (ys ++ .word "FOR" :: (zs ++ .mark ")" :: rest)) =
      some (u, .word "FOR" :: (zs ++ .mark ")" :: rest)) :=
    hy n _ (by omega) (ends_word (by simp) _)
  have hlength : g.expr n 0 (zs ++ .mark ")" :: rest) = some (v, .mark ")" :: rest) :=
    hz n _ (by omega) (ends_mark (by simp) rest)
  simp only [joined, List.flatMap_nil, List.append_nil] at hhead
  simp only [List.append_assoc, List.cons_append]
  rw [called_items hw hhead, hitems]
  simp [expect, hstart, hlength]

theorem readsOperand_cast (type : String) (h : g.ReadsExpr xs t) :
    g.ReadsOperand
      (.word "CAST" :: .mark "(" :: ((xs ++ [.word "AS", .word type]) ++ [.mark ")"]))
      (.cast t type) false := by
  intro fuel rest hfuel _ _
  simp only [List.length_append, List.length_cons, List.length_nil] at hfuel
  obtain ⟨n, rfl⟩ := Nat.exists_eq_add_of_le' (show 2 ≤ fuel by omega)
  have hoperand : ∀ more, g.operand (n + 2) (.word "CAST" :: .mark "(" :: more) =
      g.called (n + 1) "CAST" more := by
    intro more
    rw [Grammar.operand, if_neg (by decide), if_neg (by decide), if_neg (by decide)]
    rfl
  have hread : g.expr n 0 (xs ++ .word "AS" :: .word type :: .mark ")" :: rest) =
      some (t, .word "AS" :: .word type :: .mark ")" :: rest) :=
    h n _ (by omega) (ends_word (by simp) _)
  simp only [List.cons_append, List.append_assoc, List.nil_append]
  rw [hoperand, called.eq_def]
  simp [hread, expect]

/-! ## Conditionals -/

theorem ReadsExpr.conditional (hx : g.ReadsExpr xs t) (hy : g.ReadsExpr ys u) :
    g.ReadsOperand
      (.word "CASE" :: .word "WHEN" :: (xs ++ .word "THEN" :: (ys ++ [.word "END"])))
      (.conditional t u none) false := by
  intro fuel rest hfuel _ _
  simp only [List.length_append, List.length_cons, List.length_nil] at hfuel
  obtain ⟨n, rfl⟩ := Nat.exists_eq_add_of_le' (show 1 ≤ fuel by omega)
  have hcondition : g.expr n 0 (xs ++ .word "THEN" :: (ys ++ .word "END" :: rest)) =
      some (t, .word "THEN" :: (ys ++ .word "END" :: rest)) :=
    hx n _ (by omega) (ends_word (by simp) _)
  have hvalue : g.expr n 0 (ys ++ .word "END" :: rest) = some (u, .word "END" :: rest) :=
    hy n _ (by omega) (ends_word (by simp) rest)
  simp only [List.append_assoc, List.cons_append, List.nil_append]
  rw [operand, if_neg (by decide), if_pos rfl]
  simp [expect, hcondition, hvalue]

theorem ReadsExpr.conditional_else (hx : g.ReadsExpr xs t) (hy : g.ReadsExpr ys u)
    (hz : g.ReadsExpr zs v) :
    g.ReadsOperand
      (.word "CASE" :: .word "WHEN" ::
        (xs ++ .word "THEN" :: (ys ++ .word "ELSE" :: (zs ++ [.word "END"]))))
      (.conditional t u (some v)) false := by
  intro fuel rest hfuel _ _
  simp only [List.length_append, List.length_cons, List.length_nil] at hfuel
  obtain ⟨n, rfl⟩ := Nat.exists_eq_add_of_le' (show 1 ≤ fuel by omega)
  have hcondition : g.expr n 0
      (xs ++ .word "THEN" :: (ys ++ .word "ELSE" :: (zs ++ .word "END" :: rest))) =
        some (t, .word "THEN" :: (ys ++ .word "ELSE" :: (zs ++ .word "END" :: rest))) :=
    hx n _ (by omega) (ends_word (by simp) _)
  have hvalue : g.expr n 0 (ys ++ .word "ELSE" :: (zs ++ .word "END" :: rest)) =
      some (u, .word "ELSE" :: (zs ++ .word "END" :: rest)) :=
    hy n _ (by omega) (ends_word (by simp) _)
  have hotherwise : g.expr n 0 (zs ++ .word "END" :: rest) = some (v, .word "END" :: rest) :=
    hz n _ (by omega) (ends_word (by simp) rest)
  simp only [List.append_assoc, List.cons_append, List.nil_append]
  rw [operand, if_neg (by decide), if_pos rfl]
  simp [expect, hcondition, hvalue, hotherwise]

end Grammar

end SqlChain.Syntax
