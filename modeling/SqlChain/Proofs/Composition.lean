import SqlChain.Proofs.Chain.Spelling

/-!
# Texts that are put together

A property of texts that is kept wherever clauses are put together holds of a level if it holds of
everything that was compiled into it (`Composes.render`). Whoever wants to know something of whole
statements looks at the clauses one by one, and not at the levels.
-/

namespace SqlChain

/-- The words and signs that stand between two texts. -/
def connectives : List String :=
  [" AS ", " FROM ", " WHERE ", " AND ", " OR ", ", ", " = ", " > ", " < ", " + ", " IS NULL AND ",
    " LEFT JOIN ", " ON ", " GROUP BY ", " ORDER BY "]

/-- What holds of a text if it holds of its parts. -/
structure Composes (d : Dialect) (P : String → Prop) : Prop where
  empty : P ""
  one : P "1"
  name : ∀ {qualifier : Option String} {name quoted : String},
    d.quoteQualified qualifier name = .ok quoted → P quoted
  join : ∀ clause ∈ connectives, ∀ {s t : String}, P s → P t → P (s ++ clause ++ t)
  parenthesised : ∀ {s : String}, P s → P (Term.parenthesised s)
  isNull : ∀ {s : String}, P s → P (s ++ " IS NULL")
  countAll : P "COUNT(*)"
  countDistinct : ∀ {s : String}, P s → P ("COUNT(DISTINCT " ++ s ++ ")")
  select : ∀ {s : String}, P s → P ("SELECT " ++ s)
  selectAll : ∀ {s : String}, P s → P ("SELECT * FROM " ++ s)

/-- What is known of the parts of a level. A rank repeats the text of the left side. -/
structure Level.IsPutTogether (d : Dialect) (P : String → Prop) (level : Level) : Prop where
  computed : ∀ item ∈ level.body.items, ∀ f, item.value = .computed f → P f.sql
  rank : ∀ item ∈ level.body.items, ∀ r, item.value = .rank r →
    (∀ left source, level.side? .left = some left → left.render d = .ok source → P source) →
    P r.sql
  filters : ∀ f ∈ level.body.filters, P f.sql
  matching : ∀ on ∈ level.matching?, P on.sql

namespace Composes

variable {d : Dialect} {c : Compiler} {P : String → Prop}

theorem quoteIdentifier (h : Composes d P) {name quoted : String}
    (hquoted : d.quoteIdentifier name = .ok quoted) : P quoted :=
  h.name (show d.quoteQualified none name = .ok quoted from hquoted)

theorem intercalate (h : Composes d P) {clause : String} (hclause : clause ∈ connectives)
    {texts : List String} (htexts : ∀ t ∈ texts, P t) : P (String.intercalate clause texts) := by
  induction texts with
  | nil =>
      rw [String.intercalate_nil]
      exact h.empty
  | cons t rest ih =>
      obtain ⟨ht, hrest⟩ := List.forall_mem_cons.1 htexts
      cases rest with
      | nil =>
          rw [String.intercalate_singleton]
          exact ht
      | cons u rest =>
          rw [String.intercalate_cons_cons]
          exact h.join clause hclause ht (ih hrest)

/-! ## Conditions -/

theorem matchGroup (h : Composes c.dialect P) {left right group sql : String}
    (hsql : c.matchGroup left right group = .ok sql) : P sql := by
  obtain ⟨l, hl, hsql⟩ := exists_of_bind_eq_ok hsql
  obtain ⟨r, hr, hsql⟩ := exists_of_bind_eq_ok hsql
  have hequal : P (l ++ " = " ++ r) := h.join " = " (by decide) (h.name hl) (h.name hr)
  have hnulls : P (l ++ " IS NULL AND " ++ r ++ " IS NULL") :=
    h.isNull (h.join " IS NULL AND " (by decide) (h.name hl) (h.name hr))
  have hwhole : sql = Term.parenthesised (l ++ " = " ++ r ++ " OR " ++
      Term.parenthesised (l ++ " IS NULL AND " ++ r ++ " IS NULL")) := by
    cases hsql
    apply String.toList_injective
    simp [Term.parenthesised]
  rw [hwhole]
  exact h.parenthesised (h.join " OR " (by decide) hequal (h.parenthesised hnulls))

theorem matchGroups (h : Composes c.dialect P) {left right : String}
    {groups conditions : List String}
    (hconditions : c.matchGroups left right groups = .ok conditions) : ∀ s ∈ conditions, P s :=
  forall_of_mapM_eq_ok hconditions fun _ _ _ hsql => h.matchGroup hsql

theorem matching (h : Composes c.dialect P) {groups : List String} {on : Matching}
    (hon : c.matching groups = .ok on) : P on.sql := by
  obtain ⟨conditions, hconditions, hon⟩ := exists_of_bind_eq_ok hon
  cases hon
  dsimp only
  split
  · exact h.join " = " (by decide) h.one h.one
  · exact h.intercalate (by decide) (h.matchGroups hconditions)

theorem named (h : Composes d P) {sql name quoted : String} (hsql : P sql)
    (hquoted : d.quoteIdentifier name = .ok quoted) : P (Level.named sql quoted) :=
  h.join " AS " (by decide) (h.parenthesised hsql) (h.quoteIdentifier hquoted)

/-- The text of a rank, which is the number of rows that come before and one more. -/
theorem rank (h : Composes d P) {dense descending : Bool} {inner outer source name table : String}
    {same : List String} (hinner : P inner) (houter : P outer) (hsource : P source)
    (htable : d.quoteIdentifier name = .ok table) (hsame : ∀ s ∈ same, P s) :
    P ("(SELECT " ++ (if dense then "COUNT(DISTINCT " ++ inner ++ ")" else "COUNT(*)") ++
      " FROM " ++ Level.named source table ++ " WHERE " ++ String.intercalate " AND "
        (same ++ [inner ++ (if descending then " > " else " < ") ++ outer]) ++ ") + 1") := by
  have hcount : P (if dense then "COUNT(DISTINCT " ++ inner ++ ")" else "COUNT(*)") := by
    split
    · exact h.countDistinct hinner
    · exact h.countAll
  have hbefore : P (inner ++ (if descending then " > " else " < ") ++ outer) := by
    split
    · exact h.join " > " (by decide) hinner houter
    · exact h.join " < " (by decide) hinner houter
  have hwhere : P (String.intercalate " AND "
      (same ++ [inner ++ (if descending then " > " else " < ") ++ outer])) :=
    h.intercalate (by decide)
      (List.forall_mem_append.2 ⟨hsame, List.forall_mem_singleton.2 hbefore⟩)
  have hfrom := h.join " FROM " (by decide) (h.select hcount) (h.named hsource htable)
  have hwithin := h.join " WHERE " (by decide) hfrom hwhere
  have hone := h.join " + " (by decide) (h.parenthesised hwithin) h.one
  convert hone using 1
  apply String.toList_injective
  simp [Term.parenthesised]

/-! ## Levels -/

theorem item (h : Composes d P) {level : Level} (hlevel : level.IsPutTogether d P)
    (hleft : ∀ left source, level.side? .left = some left → left.render d = .ok source → P source)
    {item : Item} (hitem : item ∈ level.body.items) {sql : String}
    (hsql : item.render d = .ok sql) : P sql := by
  rw [Item.render] at hsql
  obtain ⟨quoted, hquoted, hsql⟩ := exists_of_bind_eq_ok hsql
  have hname : P quoted := h.quoteIdentifier hquoted
  cases hvalue : item.value with
  | column side source =>
      rw [hvalue] at hsql
      obtain ⟨column, hcolumn, hsql⟩ := exists_of_bind_eq_ok hsql
      cases hsql
      split
      · exact h.name hcolumn
      · exact h.join " AS " (by decide) (h.name hcolumn) hname
  | computed f =>
      rw [hvalue] at hsql
      cases hsql
      exact h.join " AS " (by decide) (hlevel.computed item hitem f hvalue) hname
  | rank r =>
      rw [hvalue] at hsql
      cases hsql
      exact h.join " AS " (by decide) (hlevel.rank item hitem r hvalue hleft) hname

theorem heading (h : Composes d P) {b : Body}
    (hitems : ∀ item ∈ b.items, ∀ sql, item.render d = .ok sql → P sql) {items source : String}
    (hsql : b.renderItems d = .ok items) (hsource : P source) :
    P ("SELECT " ++ items ++ " FROM " ++ source) := by
  rw [Body.renderItems] at hsql
  split at hsql
  · cases hsql
    exact h.selectAll hsource
  · obtain ⟨rendered, hrendered, hsql⟩ := exists_of_bind_eq_ok hsql
    cases hsql
    refine h.join " FROM " (by decide) (h.select (h.intercalate (by decide) ?_)) hsource
    exact forall_of_mapM_eq_ok hrendered hitems

theorem whereClause (h : Composes d P) {b : Body} (hfilters : ∀ f ∈ b.filters, P f.sql)
    {sql : String} (hsql : P sql) : P (sql ++ b.whereClause) := by
  rw [Body.whereClause]
  split
  · rwa [String.append_empty]
  · next filter hfilter =>
      rw [← String.append_assoc]
      exact h.join " WHERE " (by decide) hsql (hfilters filter (by simp [hfilter]))
  · rw [← String.append_assoc]
    refine h.join " WHERE " (by decide) hsql (h.intercalate (by decide) ?_)
    intro text htext
    obtain ⟨filter, hfilter, rfl⟩ := List.mem_map.1 htext
    exact h.parenthesised (hfilters filter hfilter)

theorem groupBy (h : Composes d P) {b : Body} {groups : String}
    (hgroups : b.renderGroupBy d = .ok groups) {sql : String} (hsql : P sql) :
    P (sql ++ groups) := by
  rw [Body.renderGroupBy] at hgroups
  split at hgroups
  · cases hgroups
    rwa [String.append_empty]
  · obtain ⟨keys, hkeys, hgroups⟩ := exists_of_bind_eq_ok hgroups
    cases hgroups
    rw [← String.append_assoc]
    refine h.join " GROUP BY " (by decide) hsql (h.intercalate (by decide) ?_)
    exact forall_of_mapM_eq_ok hkeys fun name _ quoted hquoted => h.quoteIdentifier hquoted

/-- What is put together at every depth. The induction is on the nest of levels. -/
theorem render (h : Composes d P) {level : Level}
    (hlevel : ∀ inner ∈ level.nest, inner.IsPutTogether d P) {sql : String}
    (hsql : level.render d = .ok sql) : P sql := by
  induction level generalizing sql with
  | table schema name body =>
      have hself := hlevel _ (Level.mem_nest _)
      rw [Level.render] at hsql
      obtain ⟨items, hitems, hsql⟩ := exists_of_bind_eq_ok hsql
      obtain ⟨source, hsource, hsql⟩ := exists_of_bind_eq_ok hsql
      obtain ⟨groups, hgroups, hsql⟩ := exists_of_bind_eq_ok hsql
      cases hsql
      have hfrom := h.heading (fun item hitem sql => h.item hself (by simp [Level.side?]) hitem)
        hitems (h.name hsource)
      exact h.groupBy hgroups (h.whereClause hself.filters hfrom)
  | subquery inner tableName body ih =>
      obtain ⟨hself, hinner⟩ := List.forall_mem_cons.1 hlevel
      rw [Level.render] at hsql
      obtain ⟨items, hitems, hsql⟩ := exists_of_bind_eq_ok hsql
      obtain ⟨source, hsource, hsql⟩ := exists_of_bind_eq_ok hsql
      obtain ⟨quoted, hquoted, hsql⟩ := exists_of_bind_eq_ok hsql
      obtain ⟨groups, hgroups, hsql⟩ := exists_of_bind_eq_ok hsql
      cases hsql
      have hleft : ∀ left source, (Level.subquery inner tableName body).side? .left = some left →
          left.render d = .ok source → P source := by
        intro left source hside hsource
        rw [Level.side?] at hside
        split at hside
        · cases hside
          exact ih hinner hsource
        · cases hside
      have hfrom := h.heading (fun item hitem sql => h.item hself hleft hitem) hitems
        (h.named (ih hinner hsource) hquoted)
      exact h.groupBy hgroups (h.whereClause hself.filters hfrom)
  | join left right on body ihl ihr =>
      obtain ⟨hself, hinner⟩ := List.forall_mem_cons.1 hlevel
      obtain ⟨hinnerLeft, hinnerRight⟩ := List.forall_mem_append.1 hinner
      rw [Level.render] at hsql
      obtain ⟨items, hitems, hsql⟩ := exists_of_bind_eq_ok hsql
      obtain ⟨leftSql, hleftSql, hsql⟩ := exists_of_bind_eq_ok hsql
      obtain ⟨leftName, hleftName, hsql⟩ := exists_of_bind_eq_ok hsql
      obtain ⟨rightSql, hrightSql, hsql⟩ := exists_of_bind_eq_ok hsql
      obtain ⟨rightName, hrightName, hsql⟩ := exists_of_bind_eq_ok hsql
      obtain ⟨groups, hgroups, hsql⟩ := exists_of_bind_eq_ok hsql
      cases hsql
      have hleft : ∀ inner source, (Level.join left right on body).side? .left = some inner →
          inner.render d = .ok source → P source := by
        rintro _ source ⟨⟩ hsource
        exact ihl hinnerLeft hsource
      have hfrom := h.heading (fun item hitem sql => h.item hself hleft hitem) hitems
        (h.named (ihl hinnerLeft hleftSql) hleftName)
      have hjoin := h.join " LEFT JOIN " (by decide) hfrom
        (h.named (ihr hinnerRight hrightSql) hrightName)
      have hon := h.join " ON " (by decide) hjoin (hself.matching on rfl)
      exact h.groupBy hgroups (h.whereClause hself.filters hon)

/-- The keys of the ordering stand behind everything else. -/
theorem orderBy (h : Composes d P) {keys : List String} (hkeys : ∀ key ∈ keys, P key)
    {sql : String} (hsql : P sql) :
    P (sql ++ if keys.isEmpty then "" else " ORDER BY " ++ String.intercalate ", " keys) := by
  split
  · rwa [String.append_empty]
  · rw [← String.append_assoc]
    exact h.join " ORDER BY " (by decide) hsql (h.intercalate (by decide) hkeys)

end Composes

end SqlChain
