import SqlChain.Level.Basic
import SqlChain.Term.Basic

/-!
# Levels as text
-/

namespace SqlChain

namespace ItemValue

/-- The text of an item that is to be called `name`, whose quoted form is `quoted`. -/
def render (d : Dialect) (name quoted : String) : ItemValue → Except Error String
  | .column side source => do
    let column ← d.quoteQualified (side.map Side.tableName) source
    return if source = name then column else column ++ " AS " ++ quoted
  | .computed f => return f.sql ++ " AS " ++ quoted
  | .rank r => return r.sql ++ " AS " ++ quoted

end ItemValue

namespace Item

def render (d : Dialect) (item : Item) : Except Error String := do
  let quoted ← d.quoteIdentifier item.name
  item.value.render d item.name quoted

end Item

namespace Body

/-- The list after `SELECT`, which is a star where every column is passed on. -/
def renderItems (d : Dialect) (b : Body) : Except Error String :=
  if b.selectsAll && !b.items.isEmpty then return "*"
  else do
    let items ← b.items.mapM (·.render d)
    return String.intercalate ", " items

def whereClause (b : Body) : String :=
  match b.filters with
  | [] => ""
  | [filter] => " WHERE " ++ filter.sql
  | filters =>
    " WHERE " ++ String.intercalate " AND " (filters.map fun f => Term.parenthesised f.sql)

def renderGroupBy (d : Dialect) (b : Body) : Except Error String := do
  if b.groupBy.isEmpty then return ""
  let keys ← b.groupBy.mapM d.quoteIdentifier
  return " GROUP BY " ++ String.intercalate ", " keys

end Body

namespace Level

/-- A level in parentheses under a quoted name. -/
def named (sql quoted : String) : String := Term.parenthesised sql ++ " AS " ++ quoted

/-- The text of a level. The items are put into words before what they are read from. -/
def render (d : Dialect) : Level → Except Error String
  | .table schema name body => do
    let items ← body.renderItems d
    let source ← d.quoteQualified schema name
    let groups ← body.renderGroupBy d
    return "SELECT " ++ items ++ " FROM " ++ source ++ body.whereClause ++ groups
  | .subquery inner tableName body => do
    let items ← body.renderItems d
    let inner ← inner.render d
    let tableName ← d.quoteIdentifier tableName
    let groups ← body.renderGroupBy d
    return "SELECT " ++ items ++ " FROM " ++ named inner tableName ++ body.whereClause ++ groups
  | .join left right on body => do
    let items ← body.renderItems d
    let left ← left.render d
    let leftName ← d.quoteIdentifier Side.left.tableName
    let right ← right.render d
    let rightName ← d.quoteIdentifier Side.right.tableName
    let groups ← body.renderGroupBy d
    return "SELECT " ++ items ++ " FROM " ++ named left leftName ++ " LEFT JOIN " ++
      named right rightName ++ " ON " ++ on.sql ++ body.whereClause ++ groups

end Level

end SqlChain
