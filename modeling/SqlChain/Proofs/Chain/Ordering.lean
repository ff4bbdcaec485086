import SqlChain.Expr.Basic

/-!
# Keys of an ordering

An ordering need not have a key that is equal to one before it. Equality of expressions is
transitive, so that it makes no difference whether a key is compared with all keys before it or only
with those that were kept.
-/

namespace SqlChain

theorem Binary64.equal_trans {x y z : Binary64} (hxy : x.equal y = true) (hyz : y.equal z = true) :
    x.equal z = true := by
  simp only [equal, Bool.and_eq_true, Bool.or_eq_true, beq_iff_eq] at *
  obtain ⟨⟨hx, _⟩, rfl | ⟨hzx, hzy⟩⟩ := hxy
  · exact hyz
  · obtain ⟨⟨_, hz⟩, rfl | ⟨_, hzz⟩⟩ := hyz
    · exact ⟨⟨hx, hz⟩, .inr ⟨hzx, hzy⟩⟩
    · exact ⟨⟨hx, hz⟩, .inr ⟨hzx, hzz⟩⟩

theorem Scalar.equal_trans {x y z : Scalar} (hxy : x.equal y = true) (hyz : y.equal z = true) :
    x.equal z = true := by
  cases x <;> cases y <;> simp [equal] at hxy <;> cases z <;> simp [equal] at hyz
  case float64.float64.float64 => exact Binary64.equal_trans hxy hyz
  case timestamp.timestamp.timestamp =>
    simp only [Timestamp.equal, beq_iff_eq, equal] at *
    exact hxy.trans hyz
  all_goals simp [equal, hxy, hyz]

namespace Expr

mutual

theorem equal_trans : ∀ {a b d : Expr}, a.equal b = true → b.equal d = true → a.equal d = true
  | .column _, b, d, hab, hbd => by
    cases b <;> simp [equal] at hab
    cases d <;> simp [equal] at hbd
    simp [equal, hab, hbd]
  | .literal _, b, d, hab, hbd => by
    cases b <;> simp [equal] at hab
    cases d <;> simp [equal] at hbd
    exact Scalar.equal_trans hab hbd
  | .call _ as _, b, d, hab, hbd => by
    cases b <;> simp [equal] at hab
    cases d <;> simp [equal] at hbd
    simp [equal, hab, hbd, equalArgs_trans hab.1.2 hbd.1.2]
  | .conditional _ _ none, b, d, hab, hbd => by
    cases b with
    | conditional c v o =>
      cases o <;> simp [equal] at hab
      cases d with
      | conditional c v o =>
        cases o <;> simp [equal] at hbd
        simp [equal, equal_trans hab.1 hbd.1, equal_trans hab.2 hbd.2]
      | _ => simp [equal] at hbd
    | _ => simp [equal] at hab
  | .conditional _ _ (some _), b, d, hab, hbd => by
    cases b with
    | conditional c v o =>
      cases o <;> simp [equal] at hab
      cases d with
      | conditional c v o =>
        cases o <;> simp [equal] at hbd
        simp [equal, equal_trans hab.1.1 hbd.1.1, equal_trans hab.1.2 hbd.1.2,
          equal_trans hab.2 hbd.2]
      | _ => simp [equal] at hbd
    | _ => simp [equal] at hab
  | .inList _ _, b, d, hab, hbd => by
    cases b <;> simp [equal] at hab
    cases d <;> simp [equal] at hbd
    simp [equal, equal_trans hab.1 hbd.1, equalList_trans hab.2 hbd.2]
  | .inExpr _ _, b, d, hab, hbd => by
    cases b <;> simp [equal] at hab
    cases d <;> simp [equal] at hbd
    simp [equal, equal_trans hab.1 hbd.1, equal_trans hab.2 hbd.2]
  | .binary _ _ _, b, d, hab, hbd => by
    cases b <;> simp [equal] at hab
    cases d <;> simp [equal] at hbd
    simp [equal, hab, hbd, equal_trans hab.1.2 hbd.1.2, equal_trans hab.2 hbd.2]
  | .unary _ _, b, d, hab, hbd => by
    cases b <;> simp [equal] at hab
    cases d <;> simp [equal] at hbd
    simp [equal, hab, hbd, equal_trans hab.2 hbd.2]

theorem equalArgs_trans : ∀ {as bs ds : List (Arg Expr)},
    equalArgs as bs = true → equalArgs bs ds = true → equalArgs as ds = true
  | [], bs, ds, hab, hbd => by
    cases bs <;> simp [equalArgs] at hab
    exact hbd
  | ⟨_, _⟩ :: _, bs, ds, hab, hbd => by
    cases bs <;> simp [equalArgs] at hab
    cases ds <;> simp [equalArgs] at hbd
    simp [equalArgs, hab, hbd, equal_trans hab.1.2 hbd.1.2, equalArgs_trans hab.2 hbd.2]

theorem equalList_trans : ∀ {as bs ds : List Expr},
    equalList as bs = true → equalList bs ds = true → equalList as ds = true
  | [], bs, ds, hab, hbd => by
    cases bs <;> simp [equalList] at hab
    exact hbd
  | _ :: _, bs, ds, hab, hbd => by
    cases bs <;> simp [equalList] at hab
    cases ds <;> simp [equalList] at hbd
    simp [equalList, equal_trans hab.1 hbd.1, equalList_trans hab.2 hbd.2]

end

end Expr

/-- The keys that are equal to none before them, those that were seen coming before all. -/
def firstOccurrences (seen : List Expr) : List Expr → List Expr
  | [] => []
  | key :: rest =>
    (if seen.any (·.equal key) then [] else [key]) ++ firstOccurrences (seen ++ [key]) rest

theorem firstOccurrences_sublist (seen keys : List Expr) :
    (firstOccurrences seen keys).Sublist keys := by
  induction keys generalizing seen with
  | nil => exact .slnil
  | cons key rest ih =>
      rw [firstOccurrences]
      split
      · exact (ih _).cons key
      · exact (ih _).cons_cons key

/-- No key is lost but those that are equal to one that comes before them. -/
theorem mem_firstOccurrences {seen keys : List Expr} {key : Expr} (h : key ∈ keys) :
    key ∈ firstOccurrences seen keys ∨
      ∃ other ∈ seen ++ firstOccurrences seen keys, other.equal key = true := by
  induction keys generalizing seen with
  | nil => cases h
  | cons first rest ih =>
      rw [firstOccurrences]
      by_cases hseen : seen.any (·.equal first) = true
      · obtain ⟨earlier, hearlier, hequal⟩ := List.any_eq_true.1 hseen
        rw [if_pos hseen, List.nil_append]
        rcases List.mem_cons.1 h with rfl | h
        · exact .inr ⟨earlier, List.mem_append_left _ hearlier, hequal⟩
        · refine (ih h).imp_right ?_
          rintro ⟨other, hother, hkey⟩
          rcases List.mem_append.1 hother with hother | hother
          · rcases List.mem_append.1 hother with hother | hother
            · exact ⟨other, List.mem_append_left _ hother, hkey⟩
            · cases List.mem_singleton.1 hother
              exact ⟨earlier, List.mem_append_left _ hearlier, Expr.equal_trans hequal hkey⟩
          · exact ⟨other, List.mem_append_right _ hother, hkey⟩
      · rw [if_neg hseen]
        rcases List.mem_cons.1 h with rfl | h
        · exact .inl (List.mem_append_left _ (List.mem_singleton_self _))
        · refine (ih h).imp (List.mem_append_right _) ?_
          rintro ⟨other, hother, hkey⟩
          rw [List.append_assoc] at hother
          exact ⟨other, hother, hkey⟩

/-- No key is equal to one that comes before it. -/
theorem pairwise_firstOccurrences (seen keys : List Expr) :
    (firstOccurrences seen keys).Pairwise (fun key other => key.equal other = false) ∧
      ∀ key ∈ seen, ∀ other ∈ firstOccurrences seen keys, key.equal other = false := by
  induction keys generalizing seen with
  | nil => exact ⟨.nil, by simp [firstOccurrences]⟩
  | cons first rest ih =>
      obtain ⟨hrest, hlater⟩ := ih (seen ++ [first])
      rw [firstOccurrences]
      split
      · exact ⟨hrest, fun key hkey => hlater key (List.mem_append_left _ hkey)⟩
      · next hseen =>
          have hfirst : ∀ key ∈ seen, key.equal first = false := by simpa using hseen
          refine ⟨List.pairwise_cons.2 ⟨hlater first (by simp), hrest⟩, ?_⟩
          intro key hkey other hother
          rcases List.mem_cons.1 hother with rfl | hother
          · exact hfirst key hkey
          · exact hlater key (List.mem_append_left _ hkey) other hother

/-- Comparing with the keys that were kept is comparing with all. -/
theorem foldl_eq_firstOccurrences {kept seen : List Expr} (keys : List Expr)
    (hkept : ∀ key, kept.any (·.equal key) = seen.any (·.equal key)) :
    keys.foldl (fun kept key => if kept.any (·.equal key) then kept else kept ++ [key]) kept =
      kept ++ firstOccurrences seen keys := by
  induction keys generalizing kept seen with
  | nil => rw [List.foldl_nil, firstOccurrences, List.append_nil]
  | cons key rest ih =>
      rw [List.foldl_cons, firstOccurrences, hkept key]
      by_cases hseen : seen.any (·.equal key) = true
      · rw [if_pos hseen, if_pos hseen, List.nil_append]
        refine ih fun other => ?_
        rw [hkept other, List.any_append, List.any_cons, List.any_nil, Bool.or_false]
        cases hother : key.equal other with
        | false => rw [Bool.or_false]
        | true =>
            obtain ⟨earlier, hearlier, hequal⟩ := List.any_eq_true.1 hseen
            rw [Bool.or_true, List.any_eq_true]
            exact ⟨earlier, hearlier, Expr.equal_trans hequal hother⟩
      · rw [if_neg hseen, if_neg hseen, ← List.append_assoc]
        refine ih fun other => ?_
        rw [List.any_append, List.any_append, hkept other]

end SqlChain
