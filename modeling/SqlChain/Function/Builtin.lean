import SqlChain.Function.Table

/-!
# Functions that are known from the start
-/

namespace SqlChain.FunctionTable

/-- Operators written as calls. -/
def operators : List FunctionEntry := [
  ⟨"+", .exact 2, .binary .add⟩,
  ⟨"*", .exact 2, .binary .mul⟩,
  ⟨"/", .exact 2, .binary .div⟩,
  ⟨"%%", .exact 2, .binary .mod⟩,
  ⟨"==", .exact 2, .binary .eq⟩,
  ⟨"!=", .exact 2, .binary .notEq⟩,
  ⟨"<", .exact 2, .binary .lt⟩,
  ⟨"<=", .exact 2, .binary .ltEq⟩,
  ⟨">", .exact 2, .binary .gt⟩,
  ⟨">=", .exact 2, .binary .gtEq⟩,
  ⟨"&", .exact 2, .binary .and⟩,
  ⟨"&&", .exact 2, .binary .and⟩,
  ⟨"|", .exact 2, .binary .or⟩,
  ⟨"||", .exact 2, .binary .or⟩,
  ⟨"-", .exact 2, .binary .sub⟩,
  ⟨"-", .exact 1, .unary .negate⟩,
  ⟨"!", .exact 1, .unary .not⟩,
  ⟨"^", .exact 2, .scalar "POWER"⟩]

def predicates : List FunctionEntry := [
  ⟨"if", .range 2 3, .special .conditional⟩,
  ⟨"ifelse", .range 2 3, .special .conditional⟩,
  ⟨"if_else", .range 2 3, .special .conditional⟩,
  ⟨"is.na", .exact 1, .special .isNull⟩,
  ⟨"is.null", .exact 1, .special .isNull⟩,
  ⟨"between", .exact 3, .special .between⟩,
  ⟨"%in%", .exact 2, .special .inSet⟩,
  ⟨"in", .exact 2, .special .inSet⟩,
  ⟨"na_if", .exact 2, .special .nullIf⟩,
  ⟨"coalesce", .atLeast 1, .scalar "COALESCE"⟩,
  ⟨"desc", .exact 1, .special .descending⟩]

def mathematics : List FunctionEntry := [
  ⟨"abs", .exact 1, .scalar "ABS"⟩,
  ⟨"ceiling", .exact 1, .scalar "CEIL"⟩,
  ⟨"ceil", .exact 1, .scalar "CEIL"⟩,
  ⟨"floor", .exact 1, .scalar "FLOOR"⟩,
  ⟨"round", .range 1 2, .scalar "ROUND"⟩,
  ⟨"sqrt", .exact 1, .scalar "SQRT"⟩,
  ⟨"exp", .exact 1, .scalar "EXP"⟩,
  ⟨"log", .exact 1, .scalar "LN"⟩,
  ⟨"log", .exact 2, .special .logBase⟩,
  ⟨"log10", .exact 1, .scalar "LOG10"⟩,
  ⟨"sign", .exact 1, .scalar "SIGN"⟩,
  ⟨"sin", .exact 1, .scalar "SIN"⟩,
  ⟨"cos", .exact 1, .scalar "COS"⟩,
  ⟨"tan", .exact 1, .scalar "TAN"⟩,
  ⟨"asin", .exact 1, .scalar "ASIN"⟩,
  ⟨"acos", .exact 1, .scalar "ACOS"⟩,
  ⟨"atan", .exact 1, .scalar "ATAN"⟩,
  ⟨"atan2", .exact 2, .scalar "ATAN2"⟩,
  ⟨"pmin", .atLeast 1, .special .pmin⟩,
  ⟨"pmax", .atLeast 1, .special .pmax⟩]

def strings : List FunctionEntry := [
  ⟨"tolower", .exact 1, .scalar "LOWER"⟩,
  ⟨"toupper", .exact 1, .scalar "UPPER"⟩,
  ⟨"trimws", .exact 1, .scalar "TRIM"⟩,
  ⟨"nchar", .exact 1, .special .length⟩,
  ⟨"substr", .exact 3, .special .substr⟩,
  ⟨"paste0", .atLeast 1, .special (.concat none)⟩,
  ⟨"paste", .atLeast 1, .special (.concat (some " "))⟩]

def casts : List FunctionEntry := [
  ⟨"as.numeric", .exact 1, .special (.cast "NUMERIC")⟩,
  ⟨"as.double", .exact 1, .special (.cast "NUMERIC")⟩,
  ⟨"as.integer", .exact 1, .special (.cast "INTEGER")⟩,
  ⟨"as.character", .exact 1, .special (.cast "TEXT")⟩]

def aggregates : List FunctionEntry := [
  ⟨"mean", .exact 1, .aggregate "AVG"⟩,
  ⟨"sum", .exact 1, .aggregate "SUM"⟩,
  ⟨"min", .exact 1, .aggregate "MIN"⟩,
  ⟨"max", .exact 1, .aggregate "MAX"⟩,
  ⟨"sd", .exact 1, .aggregate "STDDEV_SAMP"⟩,
  ⟨"var", .exact 1, .aggregate "VAR_SAMP"⟩,
  ⟨"n", .exact 0, .countStar⟩,
  ⟨"n_distinct", .atLeast 1, .special .nDistinct⟩]

def windows : List FunctionEntry := [
  ⟨"rank", .exact 1, .ranking "RANK"⟩,
  ⟨"min_rank", .exact 1, .ranking "RANK"⟩,
  ⟨"dense_rank", .exact 1, .ranking "DENSE_RANK"⟩,
  ⟨"percent_rank", .exact 1, .ranking "PERCENT_RANK"⟩,
  ⟨"cume_dist", .exact 1, .ranking "CUME_DIST"⟩,
  ⟨"row_number", .range 0 1, .ranking "ROW_NUMBER"⟩,
  ⟨"ntile", .exact 2, .ntile⟩,
  ⟨"lag", .range 1 3, .offset "LAG"⟩,
  ⟨"lead", .range 1 3, .offset "LEAD"⟩,
  ⟨"cumsum", .exact 1, .cumulative "SUM"⟩,
  ⟨"cummean", .exact 1, .cumulative "AVG"⟩,
  ⟨"cummin", .exact 1, .cumulative "MIN"⟩,
  ⟨"cummax", .exact 1, .cumulative "MAX"⟩]

def builtin : FunctionTable :=
  ⟨operators ++ predicates ++ mathematics ++ strings ++ casts ++ aggregates ++ windows⟩

end SqlChain.FunctionTable
