import SqlChain.Proofs.Group.Beginning

/-!
# Aborts between groups

An abort can be requested before an execution or in any call that it makes. Each request puts a
limit to the groups that the computations are called for (`Requested`): none of them if it was made
before the execution, and otherwise those up to the group of the call. In its course a traversal
comes to this limit and stops there, unless it stops before for another reason
(`Course.of_requested`), and it is cancelled at no other group (`Course.of_cancelled`).
-/

namespace SqlChain

open SqlChain.Computation

variable {σ ω : Type} {computations : List (Computation σ ω)} {columns : List String} {client : σ}
  {aborted : Bool} {made : List (Computation σ ω × Group)} {done runs : List Run} {limit : Nat}

/-- An abort was requested that lets no group begin from this one on. -/
inductive Requested (aborted : Bool) (made : List (Computation σ ω × Group)) (client : σ) :
    Nat → Prop
  | before (h : aborted = true) : Requested aborted made client 0
  | during {group : Group} {reply : Reply σ ω} (hmem : (group, reply) ∈ transcript made client)
      (h : reply.abort = true) : Requested aborted made client (group.index + 1)

theorem exists_requested_iff :
    (∃ limit, Requested aborted made client limit) ↔ asked aborted made client = true := by
  rw [asked, Bool.or_eq_true, List.any_eq_true]
  constructor
  · rintro ⟨limit, h | ⟨hmem, h⟩⟩
    · exact .inl h
    · exact .inr ⟨_, hmem, h⟩
  · rintro (h | ⟨⟨group, reply⟩, hmem, h⟩)
    · exact ⟨0, .before h⟩
    · exact ⟨_, .during hmem h⟩

namespace Requested

/-- A request that was not made before the last of these calls was made in one of them. -/
theorem limit_eq_of_not_asked {last : List (Computation σ ω × Group)} {n : Nat}
    (h : Requested aborted (made ++ last) client limit)
    (hquiet : asked aborted made client = false) (hlast : ∀ x ∈ last, x.2.index = n) :
    limit = n + 1 := by
  have hnone : ¬ ∃ limit, Requested aborted made client limit := by
    rw [exists_requested_iff, hquiet]
    exact Bool.false_ne_true
  rcases h with h | ⟨hmem, h⟩
  · exact absurd ⟨0, .before h⟩ hnone
  · next group reply =>
      rw [transcript_append, List.mem_append] at hmem
      rcases hmem with hmem | hmem
      · exact absurd ⟨_, .during hmem h⟩ hnone
      · have hgroup := List.mem_map_of_mem (f := Prod.fst) hmem
        rw [map_fst_transcript] at hgroup
        obtain ⟨x, hx, hindex⟩ := List.mem_map.1 hgroup
        rw [← hlast x hx, hindex]

theorem limit_eq_length (h : Requested aborted (callsFor computations columns done) client limit)
    (hquiet : Undisturbed computations columns client aborted done) : limit = done.length := by
  rcases done.eq_nil_or_concat' with rfl | ⟨front, run, rfl⟩
  · rcases h with h | ⟨hmem, h⟩
    · rfl
    · cases hmem
  · rw [callsFor_concat] at h
    rw [List.length_append, List.length_singleton]
    exact h.limit_eq_of_not_asked (hquiet front (List.prefix_append _ _) (by simp))
      fun x => Group.index_of_mem_next

end Requested

theorem Group.take_ofRuns (columns : List String) (runs : List Run) (n : Nat) :
    (ofRuns columns runs).take n = ofRuns columns (runs.take n) := by
  refine List.ext_getElem? fun i => ?_
  simp only [ofRuns, List.getElem?_take, List.getElem?_mapIdx]
  split <;> rfl

namespace Course

variable {ended : Except Error Unit}

/-- A traversal that an abort was requested of stops at the limit, or at a call that fails for the
last run before it. -/
theorem of_requested (h : Course computations columns client aborted runs made ended)
    (hlimit : Requested aborted made client limit) :
    limit ≤ runs.length ∧ made <+: callsFor computations columns (runs.take limit) ∧
      (ended = .ok () → limit = runs.length) ∧
      (made = callsFor computations columns (runs.take limit) ∧
          (limit < runs.length → ended = .error (.cancelled limit)) ∨
        ∃ index error, limit = index + 1 ∧ EndsIn made client index error ∧
          ended = .error error) := by
  cases h with
  | completed hquiet =>
      obtain rfl := hlimit.limit_eq_length hquiet
      rw [List.take_length]
      exact ⟨le_rfl, List.prefix_rfl, fun _ => rfl, .inl ⟨rfl, fun h => absurd h (lt_irrefl _)⟩⟩
  | @halted done run back made error hdue hquiet hhalts =>
      subst hdue
      have hlength : done.length + 1 ≤ (done ++ run :: back).length := by simp
      cases hhalts with
      | cancelled =>
          obtain rfl := hlimit.limit_eq_length hquiet
          rw [List.take_left' rfl]
          exact ⟨by omega, List.prefix_rfl, by simp, .inl ⟨rfl, fun _ => rfl⟩⟩
      | unlabelled hasked =>
          -- the flag is looked at before the label
          rw [exists_requested_iff.1 ⟨limit, hlimit⟩] at hasked
          cases hasked
      | failed hasked hfront hends =>
          have hindex : limit = done.length + 1 := hlimit.limit_eq_of_not_asked hasked
            fun x hx => Group.index_of_mem_next (hfront.subset hx)
          have htake : (done ++ run :: back).take limit = done ++ [run] := by
            simp [hindex, List.take_append, List.take_of_length_le]
          rw [htake, callsFor_concat]
          exact ⟨hindex ▸ hlength, (List.prefix_append_right_inj _).2 hfront, by simp,
            .inr ⟨done.length, error, hindex, hends, rfl⟩⟩

/-- A traversal is cancelled only at the limit, and only if there is a run behind it. -/
theorem of_cancelled
    (h : Course computations columns client aborted runs made (.error (.cancelled limit))) :
    Requested aborted made client limit ∧ limit < runs.length := by
  cases h with
  | completed _ hanswer => exact (hanswer _ rfl).elim
  | @halted done run back made error hdue hquiet hhalts =>
      subst hdue
      cases hhalts with
      | cancelled hasked =>
          obtain ⟨limit, hlimit⟩ := exists_requested_iff.2 hasked
          obtain rfl := hlimit.limit_eq_length hquiet
          exact ⟨hlimit, by simp⟩
      | unlabelled _ herror => exact herror.elim
      | failed _ _ hends =>
          obtain ⟨_, _, _, _, _, _, _, herror⟩ := hends
          cases herror

end Course

namespace Query

/-- An abort takes effect between groups and nowhere else. Nothing is called if the execution ends
before the first page. Otherwise the calls are the first of those for the groups that are due, and
all of them if it succeeds. If an abort was requested no group behind the limit is begun. All
computations are called for the groups up to the limit, unless one of them fails in the last of
these groups and the execution with it. An execution succeeds only if there is no further group,
and if there is one it is cancelled there. Nothing else has it cancelled. -/
theorem execute_stops_between_groups (q : Query) (connection : Connection) (config : Config)
    (computations : List (Computation σ ω)) (client : σ) (aborted : Bool) :
    let execution := q.execute connection config computations client aborted
    let called := q.calls connection config computations client aborted
    (∀ e, q.beginning connection config computations = .error e →
      execution.outcome = .error e ∧ called = []) ∧
    ∀ rendered labels, q.beginning connection config computations = .ok (rendered, labels) →
      let groups := Group.ofRuns rendered.columns (due connection config rendered labels)
      ∃ made : List (Computation σ ω × Group),
        called = made.map (fun x => (x.1.name, x.2)) ∧
        execution.client = (replay made client).1 ∧
        execution.aborted = asked aborted made client ∧
        made <+: Computation.calls computations groups ∧
        (∀ result, execution.outcome = .ok result →
          made = Computation.calls computations groups) ∧
        (∀ limit, Requested aborted made client limit →
          limit ≤ groups.length ∧ (∀ x ∈ made, x.2.index < limit) ∧
          (∀ result, execution.outcome = .ok result → limit = groups.length) ∧
          (made = Computation.calls computations (groups.take limit) ∧
              (limit < groups.length → execution.outcome = .error (.cancelled limit)) ∨
            ∃ index error, limit = index + 1 ∧ EndsIn made client index error ∧
              execution.outcome = .error error)) ∧
        ∀ limit, execution.outcome = .error (.cancelled limit) →
          Requested aborted made client limit ∧ limit < groups.length := by
  intro execution called
  refine ⟨fun e h => ?_, fun rendered labels h => ?_⟩
  · obtain ⟨requests, hexecute⟩ := execute_of_beginning_error h client aborted
    exact ⟨congrArg Execution.outcome hexecute, calls_of_beginning_error h client aborted⟩
  intro groups
  obtain ⟨made, ended, hcalled, hclient, haborted, hcourse, hends⟩ :=
    exists_course h client aborted
  have hlength : groups.length = (due connection config rendered labels).length := by
    simp [groups, Group.ofRuns]
  refine ⟨made, hcalled, hclient, haborted, hcourse.isPrefix, fun result hresult => ?_,
    fun limit hlimit => ?_, fun limit hcancelled => ?_⟩
  · obtain rfl := hends.ended_ok result hresult
    exact hcourse.of_ok
  · obtain ⟨hle, hmade, hended, hstop⟩ := hcourse.of_requested hlimit
    rw [hlength, Group.take_ofRuns]
    refine ⟨hle, fun x hx => ?_, fun result hresult => hended (hends.ended_ok result hresult), ?_⟩
    · obtain ⟨i, hi, hgroup⟩ := exists_of_mem_callsFor (hmade.subset hx)
      rw [List.length_take] at hi
      rw [hgroup]
      exact (Nat.lt_min.1 hi).1
    · rcases hstop with ⟨hall, hcancelled⟩ | ⟨index, error, hindex, hfailed, hended⟩
      · exact .inl ⟨hall, fun hlt => hends.outcome_error _ (hcancelled hlt)⟩
      · exact .inr ⟨index, error, hindex, hfailed, hends.outcome_error _ hended⟩
  · obtain rfl := hends.ended_cancelled limit hcancelled
    rw [hlength]
    exact hcourse.of_cancelled

/-- Two computations on two groups. The first one asks for an abort in its first call, after which
the other one is called for the same group. -/
theorem execute_stops_after_first_group :
    let q : Query :=
      { source := { schema := none, name := "t", columns := ["g", "v"] }
        ops := [.groupBy ["g"] false] }
    let page : RowSet :=
      { columns := ["g", "v"]
        rows := [[.utf8 "a", .int64 1], [.utf8 "a", .int64 2], [.null, .int64 3]] }
    let connection : Connection :=
      { dialect := Dialect.ansi
        execute := fun _ => .ok { columns := ["g"], rows := [[.utf8 "a"], [.null]] }
        fetch := fun _ _ => { pages := [page], failure := none } }
    let count (name : String) (abort : Bool) : Computation Nat Empty :=
      { name := some name
        run := fun group calls => { value := .ok (.table group.rows), state := calls + 1, abort } }
    let first : Group :=
      { index := 0, key := [.utf8 "a"], rows := { page with rows := page.rows.take 2 } }
    let computations := [count "m" true, count "n" false]
    q.calls connection .default computations 0 false = [(some "m", first), (some "n", first)] ∧
      (q.execute connection .default computations 0 false).outcome = .error (.cancelled 1) := by
  intro q page connection count first computations
  obtain ⟨rendered, labels, hbeginning, hdue⟩ : ∃ rendered labels,
      q.beginning connection .default computations = .ok (rendered, labels) ∧
      Group.ofRuns rendered.columns (due connection .default rendered labels) =
        [first, ⟨1, [.null], { page with rows := page.rows.drop 2 }⟩] := by
    subst connection q
    exact ⟨_, _, rfl, by decide⟩
  have hcalls : q.calls connection .default computations 0 false =
      [(some "m", first), (some "n", first)] := by decide +kernel
  obtain ⟨made, hcalled, _, _, hprefix, _, hlimit, _⟩ :=
    (q.execute_stops_between_groups connection .default computations 0 false).2 rendered labels
      hbeginning
  rw [hdue] at hprefix hlimit
  rw [hcalls] at hcalled
  have hlength : made.length = 2 := by simpa using (congrArg List.length hcalled).symm
  have hmade : made = [(count "m" true, first), (count "n" false, first)] := by
    rw [List.prefix_iff_eq_take.1 hprefix, hlength]
    rfl
  subst hmade
  have hrequested : Requested false [(count "m" true, first), (count "n" false, first)] 0
      (first.index + 1) := .during List.mem_cons_self rfl
  refine ⟨hcalls, ?_⟩
  obtain ⟨_, _, _, ⟨_, hcancelled⟩ | ⟨index, error, _, hends, _⟩⟩ := hlimit _ hrequested
  · exact hcancelled (by decide)
  · obtain ⟨front, c, group, reason, hcall, _, hvalue, _⟩ := hends
    have hmem : (c, group) ∈ [(count "m" true, first), (count "n" false, first)] := by
      rw [hcall]
      exact List.mem_append_right _ (List.mem_singleton_self _)
    simp only [List.mem_cons, Prod.mk.injEq, List.not_mem_nil, or_false] at hmem
    rcases hmem with ⟨rfl, rfl⟩ | ⟨rfl, rfl⟩ <;> cases hvalue

end Query

end SqlChain
