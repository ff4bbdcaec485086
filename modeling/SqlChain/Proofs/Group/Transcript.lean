import SqlChain.Proofs.Group.View

/-!
# Calls with their answers

A call is answered with a value or an error, and may ask for the traversal to be aborted.
`Traversal.HasMade` says of a traversal which calls it has made, by what they have left behind.
Giving one more run to the computations either completes its group, or halts the traversal in one of
three ways (`Halts`): before the first of them because an abort was requested or because the run is
not the next label, or after one of them that failed.
-/

namespace SqlChain

variable {σ ω : Type}

namespace Computation

/-- The answers to calls that are made one after another, each with the group of its call. -/
def transcript : List (Computation σ ω × Group) → σ → List (Group × Reply σ ω)
  | [], _ => []
  | (c, group) :: rest, s => (group, c.run group s) :: transcript rest (c.run group s).state

/-- Whether an abort was requested before the start or in one of these calls. -/
def asked (aborted : Bool) (made : List (Computation σ ω × Group)) (client : σ) : Bool :=
  aborted || (transcript made client).any (·.2.abort)

/-- The last of these calls failed, which was for the group of this index. -/
def EndsIn (made : List (Computation σ ω × Group)) (client : σ) (index : Nat) (error : Error) :
    Prop :=
  ∃ front c group reason, made = front ++ [(c, group)] ∧ group.index = index ∧
    (c.run group (replay front client).1).value = .error reason ∧
    error = .computation (c.name.getD "") index reason

theorem transcript_append (front back : List (Computation σ ω × Group)) (s : σ) :
    transcript (front ++ back) s = transcript front s ++ transcript back (replay front s).1 := by
  induction front generalizing s with
  | nil => rfl
  | cons call front ih => simp [transcript, replay, ih]

/-- The calls return these values, so none of them fails. -/
def Return (made : List (Computation σ ω × Group)) (client : σ) (values : List (GroupValue ω)) :
    Prop :=
  (replay made client).2 = values.map .ok

theorem Return.cons {c : Computation σ ω} {group : Group} {client : σ} {value : GroupValue ω}
    (hvalue : (c.run group client).value = .ok value) {made : List (Computation σ ω × Group)}
    {values : List (GroupValue ω)} (h : Return made (c.run group client).state values) :
    Return ((c, group) :: made) client (value :: values) := by
  simpa [Return, replay, hvalue] using h

theorem Return.append {front back : List (Computation σ ω × Group)} {client : σ}
    {values more : List (GroupValue ω)} (h : Return front client values)
    (hmore : Return back (replay front client).1 more) :
    Return (front ++ back) client (values ++ more) := by
  rw [Return, replay_append, h, hmore, List.map_append]

theorem Return.of_isPrefix {front made : List (Computation σ ω × Group)} {client : σ}
    {values : List (GroupValue ω)} (h : Return made client values) (hfront : front <+: made) :
    ∃ values, Return front client values := by
  obtain ⟨back, rfl⟩ := hfront
  rw [Return, replay_append] at h
  obtain ⟨first, _, _, hfirst, _⟩ := List.append_eq_map_iff.1 h
  exact ⟨first, hfirst.symm⟩

theorem map_fst_transcript (made : List (Computation σ ω × Group)) (s : σ) :
    (transcript made s).map Prod.fst = made.map Prod.snd := by
  induction made generalizing s with
  | nil => rfl
  | cons call made ih => simp [transcript, ih]

theorem calls_append (computations : List (Computation σ ω)) (front back : List Group) :
    calls computations (front ++ back) = calls computations front ++ calls computations back :=
  List.flatMap_append

end Computation

open SqlChain.Computation

/-! ## One call after another -/

/-- The calls that were written down, and what they have left behind. -/
structure Traversal.HasMade (t : Traversal (σ × List Call) ω) (client : σ) (aborted : Bool)
    (made : List (Computation σ ω × Group)) : Prop where
  client_eq : t.client = ((replay made client).1, made.map fun x => (x.1.name, x.2))
  aborted_eq : t.aborted = asked aborted made client

/-- The traversal with other results, at the same place. -/
structure Traversal.SamePlace (t next : Traversal σ ω) : Prop where
  carry_eq : next.carry = t.carry
  columns_eq : next.columns = t.columns
  labels_eq : next.labels = t.labels
  next_eq : next.next = t.next

theorem Traversal.SamePlace.refl (t : Traversal σ ω) : t.SamePlace t := ⟨rfl, rfl, rfl, rfl⟩

theorem Traversal.SamePlace.trans {t mid next : Traversal σ ω} (h : t.SamePlace mid)
    (hnext : mid.SamePlace next) : t.SamePlace next where
  carry_eq := hnext.carry_eq.trans h.carry_eq
  columns_eq := hnext.columns_eq.trans h.columns_eq
  labels_eq := hnext.labels_eq.trans h.labels_eq
  next_eq := hnext.next_eq.trans h.next_eq

variable {t : Traversal (σ × List Call) ω} {client : σ} {aborted : Bool}
  {made : List (Computation σ ω × Group)}

namespace TraversalM

/-- The call is made, and its answer is that of the computation in the state of the client. -/
theorem exec_call_logged (h : t.HasMade client aborted made) (group : Group) (i : Nat)
    (c : Computation σ ω) :
    ∃ next, next.HasMade client aborted (made ++ [(c, group)]) ∧ t.SamePlace next ∧
      next.stats = t.stats ∧
      match (c.run group (replay made client).1).value with
      | .error reason =>
        exec (call group i c.logged) t =
          (.error (.computation (c.name.getD "") group.index reason), next)
      | .ok value =>
        exec (call group i c.logged) t = (.ok (), next) ∧
          next.slots = t.slots.modify i (·.set group.index (some value)) := by
  have hmade : ∀ slots, Traversal.HasMade { t with
      client := ((c.run group t.client.1).state, t.client.2 ++ [(c.name, group)])
      aborted := t.aborted || (c.run group t.client.1).abort
      slots } client aborted (made ++ [(c, group)]) := by
    intro slots
    constructor
    · simp [h.client_eq, replay_append, replay]
    · simp [h.client_eq, h.aborted_eq, asked, transcript_append, transcript, Bool.or_assoc]
  rw [exec_call]
  simp only [Computation.logged]
  cases hvalue : (c.run group t.client.1).value with
  | error reason =>
      refine ⟨_, hmade t.slots, ⟨rfl, rfl, rfl, rfl⟩, rfl, ?_⟩
      rw [h.client_eq] at hvalue
      rw [hvalue]
  | ok value =>
      refine ⟨_, hmade (t.slots.modify i (·.set group.index (some value))), ⟨rfl, rfl, rfl, rfl⟩,
        rfl, ?_⟩
      rw [h.client_eq] at hvalue
      rw [hvalue]
      exact ⟨rfl, rfl⟩

/-- The computations are called in their order. Either all of them return values, or the first one
that fails is the last that is called. -/
theorem exec_callAll_logged (h : t.HasMade client aborted made) (group : Group) (i : Nat)
    (computations : List (Computation σ ω)) :
    ∃ next, t.SamePlace next ∧ next.stats = t.stats ∧
      ((∃ values, values.length = computations.length ∧
          Return (computations.map (·, group)) (replay made client).1 values ∧
          exec (callAll group i (computations.map logged)) t = (.ok (), next) ∧
          next.HasMade client aborted (made ++ computations.map (·, group)) ∧
          next.slots = fillFrom group.index i values t.slots) ∨
        ∃ front c reason, front ++ [c] <+: computations ∧
          (∃ values, Return (front.map (·, group)) (replay made client).1 values) ∧
          (c.run group (replay (made ++ front.map (·, group)) client).1).value = .error reason ∧
          exec (callAll group i (computations.map logged)) t =
            (.error (.computation (c.name.getD "") group.index reason), next) ∧
          next.HasMade client aborted (made ++ (front ++ [c]).map (·, group))) := by
  induction computations generalizing i t made with
  | nil => exact ⟨t, .refl t, rfl, .inl ⟨[], rfl, rfl, rfl, by simpa using h, rfl⟩⟩
  | cons c rest ih =>
      obtain ⟨mid, hmid, hplace, hstats, hcall⟩ := exec_call_logged h group i c
      cases hvalue : (c.run group (replay made client).1).value with
      | error reason =>
          rw [hvalue] at hcall
          have hlast : (c.run group (replay (made ++ []) client).1).value = .error reason := by
            rwa [List.append_nil]
          exact ⟨mid, hplace, hstats, .inr ⟨[], c, reason, ⟨rest, rfl⟩, ⟨[], rfl⟩, hlast,
            exec_bind_of_error hcall _, hmid⟩⟩
      | ok value =>
          rw [hvalue] at hcall
          have hrest : exec (callAll group i ((c :: rest).map logged)) t =
              exec (callAll group (i + 1) (rest.map logged)) mid := exec_bind_of_ok hcall.1 _
          have hstate : (replay (made ++ [(c, group)]) client).1 =
              (c.run group (replay made client).1).state := by simp [replay_append, replay]
          obtain ⟨next, hlast, hstats', hcalls⟩ := ih hmid (i + 1)
          rw [hstate] at hcalls
          rw [hrest]
          refine ⟨next, hplace.trans hlast, hstats'.trans hstats, ?_⟩
          rcases hcalls with ⟨values, hlength, hvalues, hexec, hnext, hslots⟩ |
            ⟨front, last, reason, hfront, ⟨values, hvalues⟩, hfailed, hexec, hnext⟩
          · refine .inl ⟨value :: values, by simp [hlength], hvalues.cons hvalue, hexec, ?_, ?_⟩
            · simpa using hnext
            · rw [hslots, hcall.2, fillFrom]
          · refine .inr ⟨c :: front, last, reason, (List.prefix_cons_inj _).2 hfront,
              ⟨value :: values, hvalues.cons hvalue⟩, ?_, hexec, ?_⟩
            · simpa using hfailed
            · simpa using hnext

end TraversalM

/-! ## One run after another -/

/-- The calls for a group, in a traversal where these runs came before it. -/
def Group.next (columns : List String) (done : List Run) (run : Run) : Group :=
  { index := done.length, key := run.key, rows := { columns, rows := run.rows } }

theorem Group.index_of_mem_next {computations : List (Computation σ ω)} {columns : List String}
    {done : List Run} {run : Run} {x : Computation σ ω × Group}
    (h : x ∈ computations.map (·, next columns done run)) : x.2.index = done.length := by
  obtain ⟨c, _, rfl⟩ := List.mem_map.1 h
  rfl

section

variable (computations : List (Computation σ ω)) (columns : List String) (client : σ)
  (aborted : Bool)

/-- All computations are called for each of these runs. -/
abbrev callsFor (runs : List Run) : List (Computation σ ω × Group) :=
  calls computations (Group.ofRuns columns runs)

/-- No abort was requested when the computations were called for any of these runs. -/
def Undisturbed (runs : List Run) : Prop :=
  ∀ done, done <+: runs → done ≠ runs →
    asked aborted (callsFor computations columns done) client = false

/-- What is left of a traversal that comes to a run after these, and does not get beyond it. -/
inductive Halts (done : List Run) (run : Run) : List (Computation σ ω × Group) → Error → Prop
  | cancelled (h : asked aborted (callsFor computations columns done) client = true) :
      Halts done run (callsFor computations columns done) (.cancelled done.length)
  /-- The run is not the next label. -/
  | unlabelled (h : asked aborted (callsFor computations columns done) client = false)
      {error : Error} (herror : error.NotCancelled) :
      Halts done run (callsFor computations columns done) error
  | failed (h : asked aborted (callsFor computations columns done) client = false)
      {front : List (Computation σ ω × Group)} {error : Error}
      (hfront : front <+: computations.map (·, Group.next columns done run))
      (hends : EndsIn (callsFor computations columns done ++ front) client done.length error) :
      Halts done run (callsFor computations columns done ++ front) error

/-- These runs were given to the computations, one after the other. -/
structure Traversal.HasGiven (t : Traversal (σ × List Call) ω) (done : List Run) : Prop where
  columns_eq : t.columns = columns
  next_eq : t.next = done.length
  made : t.HasMade client aborted (callsFor computations columns done)
  undisturbed : Undisturbed computations columns client aborted done

end

variable {computations : List (Computation σ ω)} {columns : List String} {done : List Run}

theorem callsFor_concat (done : List Run) (run : Run) :
    callsFor computations columns (done ++ [run]) =
      callsFor computations columns done ++
        computations.map (·, Group.next columns done run) := by
  rw [callsFor, Group.ofRuns_concat, calls_append]
  simp [calls, Group.next]

theorem callsFor_mono {runs : List Run} (h : done <+: runs) :
    callsFor computations columns done <+: callsFor computations columns runs := by
  obtain ⟨back, rfl⟩ := h
  rw [callsFor, callsFor, Group.ofRuns, Group.ofRuns, List.mapIdx_append, calls_append]
  exact List.prefix_append _ _

theorem exists_of_mem_callsFor {runs : List Run} {x : Computation σ ω × Group}
    (h : x ∈ callsFor computations columns runs) :
    ∃ (i : Nat) (hi : i < runs.length), x.2 =
      { index := i, key := runs[i].key, rows := { columns, rows := runs[i].rows } } := by
  obtain ⟨group, hgroup, hx⟩ := List.mem_flatMap.1 h
  obtain ⟨c, _, rfl⟩ := List.mem_map.1 hx
  obtain ⟨i, hi, rfl⟩ := List.mem_mapIdx.1 hgroup
  exact ⟨i, hi, rfl⟩

theorem Undisturbed.concat (h : Undisturbed computations columns client aborted done)
    (hasked : asked aborted (callsFor computations columns done) client = false) (run : Run) :
    Undisturbed computations columns client aborted (done ++ [run]) := by
  intro front hfront hne
  rcases List.prefix_concat_iff.1 hfront with heq | hfront
  · exact absurd heq hne
  · by_cases hall : front = done
    · exact hall ▸ hasked
    · exact h front hfront hall

/-- The traversal at another place of its rows. -/
theorem Traversal.HasGiven.congr (h : t.HasGiven computations columns client aborted done)
    (phase : Phase) (carry : Carry) (stats : Stats) :
    Traversal.HasGiven computations columns client aborted { t with phase, carry, stats } done :=
  ⟨h.columns_eq, h.next_eq, ⟨h.made.client_eq, h.made.aborted_eq⟩, h.undisturbed⟩

end SqlChain
