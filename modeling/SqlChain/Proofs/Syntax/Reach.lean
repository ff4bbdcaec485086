import SqlChain.Proofs.Syntax.Compile

/-!
# How far a negation reaches

Where only the reach of a `NOT` matters, a text is made of operators, of groups in parentheses and of
what stands between them. A `NOT` reaches up to the next operator that binds less tightly than it
does, or to the end of what it stands in. This makes sense of every term, with windows as well and with
functions of any name.
-/

namespace SqlChain

namespace Syntax

/-- A part of a text. -/
inductive Piece where
  | plain (text : String)
  | not
  | operator (op : String)
  /-- What no operand goes on behind, such as a comma. -/
  | separator (text : String)
  | group (inner : List Piece)

/-- A part of a text that is read, where a `NOT` has taken what it reaches. -/
inductive Shape where
  | plain (text : String)
  | not (reach : List Shape)
  | operator (op : String)
  | separator (text : String)
  | group (inner : List Shape)

namespace Piece

mutual

def text : Piece → String
  | .plain s | .separator s => s
  | .not => "NOT"
  | .operator op => " " ++ op ++ " "
  | .group inner => Term.parenthesised (texts inner)

def texts : List Piece → String
  | [] => ""
  | p :: ps => p.text ++ texts ps

end

theorem texts_append (ps qs : List Piece) : texts (ps ++ qs) = texts ps ++ texts qs := by
  induction ps with
  | nil => simp [texts]
  | cons p ps ih => rw [List.cons_append, texts, texts, ih, String.append_assoc]

end Piece

namespace Shape

/-- Whether a `NOT` in front takes it along. -/
def isReached : Shape → Bool
  | .operator op => !guards op
  | .separator _ => false
  | .plain _ | .not _ | .group _ => true

mutual

def pieces : Shape → List Piece
  | .plain s => [.plain s]
  | .not reach => .not :: allPieces reach
  | .operator op => [.operator op]
  | .separator s => [.separator s]
  | .group inner => [.group (allPieces inner)]

def allPieces : List Shape → List Piece
  | [] => []
  | s :: ss => s.pieces ++ allPieces ss

end

theorem allPieces_append (ss us : List Shape) :
    allPieces (ss ++ us) = allPieces ss ++ allPieces us := by
  induction ss with
  | nil => rfl
  | cons s ss ih => rw [List.cons_append, allPieces, allPieces, ih, List.append_assoc]

end Shape

/-! ## Reading -/

namespace Piece

mutual

/-- What is read of a piece in front of what has been read. -/
def read : Piece → List Shape → List Shape
  | .plain s, behind => .plain s :: behind
  | .not, behind => .not (behind.takeWhile Shape.isReached) :: behind.dropWhile Shape.isReached
  | .operator op, behind => .operator op :: behind
  | .separator s, behind => .separator s :: behind
  | .group inner, behind => .group (readAll inner []) :: behind

def readAll : List Piece → List Shape → List Shape
  | [], behind => behind
  | p :: ps, behind => p.read (readAll ps behind)

end

theorem readAll_append (ps qs : List Piece) (behind : List Shape) :
    readAll (ps ++ qs) behind = readAll ps (readAll qs behind) := by
  induction ps with
  | nil => rfl
  | cons p ps ih => rw [List.cons_append, readAll, readAll, ih]

end Piece

/-- Whether nothing stands here that a `NOT` in front would take along. -/
def isClear (ss : List Shape) : Bool := !ss.head?.any Shape.isReached

mutual

/-- Whether every `NOT` has taken what it reaches, and nothing else. -/
def Shape.isKept : Shape → List Shape → Bool
  | .not reach, behind => reach.all Shape.isReached && areKept reach && isClear behind
  | .group inner, _ => areKept inner
  | .plain _, _ | .operator _, _ | .separator _, _ => true

def areKept : List Shape → Bool
  | [] => true
  | s :: ss => s.isKept ss && areKept ss

end

@[simp] theorem isClear_nil : isClear [] = true := rfl

@[simp] theorem isClear_plain (s : String) (ss : List Shape) :
    isClear (.plain s :: ss) = false := rfl

@[simp] theorem isClear_operator (op : String) (ss : List Shape) :
    isClear (.operator op :: ss) = guards op := by
  simp [isClear, Shape.isReached]

@[simp] theorem isClear_separator (s : String) (ss : List Shape) :
    isClear (.separator s :: ss) = true := rfl

@[simp] theorem areKept_nil : areKept [] = true := rfl

@[simp] theorem areKept_plain (s : String) (ss : List Shape) :
    areKept (.plain s :: ss) = areKept ss := Bool.true_and _

@[simp] theorem areKept_operator (op : String) (ss : List Shape) :
    areKept (.operator op :: ss) = areKept ss := Bool.true_and _

@[simp] theorem areKept_separator (s : String) (ss : List Shape) :
    areKept (.separator s :: ss) = areKept ss := Bool.true_and _

@[simp] theorem areKept_group (inner ss : List Shape) :
    areKept (.group inner :: ss) = (areKept inner && areKept ss) := rfl

@[simp] theorem areKept_not (inner ss : List Shape) :
    areKept (.not [.group inner] :: ss) = (areKept inner && isClear ss && areKept ss) := by
  simp [areKept, Shape.isKept, Shape.isReached]

theorem isClear_append {ss us : List Shape} (hss : isClear ss = true) (hus : isClear us = true) :
    isClear (ss ++ us) = true := by
  cases ss with
  | nil => exact hus
  | cons => exact hss

theorem isClear_dropWhile (ss : List Shape) : isClear (ss.dropWhile Shape.isReached) = true := by
  induction ss with
  | nil => rfl
  | cons s ss ih =>
      rw [List.dropWhile_cons]
      split
      · exact ih
      · next hreached => simpa [isClear] using hreached

theorem Shape.isKept_of_isClear {s : Shape} {ss us : List Shape} (h : s.isKept ss = true)
    (hclear : isClear ss = true → isClear us = true) : s.isKept us = true := by
  cases s with
  | not reach =>
      simp only [isKept, Bool.and_eq_true] at h ⊢
      exact ⟨h.1, hclear h.2⟩
  | _ => exact h

theorem areKept_takeWhile {ss : List Shape} (h : areKept ss = true) :
    areKept (ss.takeWhile Shape.isReached) = true := by
  induction ss with
  | nil => rfl
  | cons s ss ih =>
      rw [areKept, Bool.and_eq_true] at h
      rw [List.takeWhile_cons]
      split
      · rw [areKept, ih h.2, Bool.and_true]
        refine Shape.isKept_of_isClear h.1 fun hclear => ?_
        cases ss with
        | nil => rfl
        | cons u us =>
            rw [List.takeWhile_cons]
            split
            · exact hclear
            · rfl
      · rfl

theorem areKept_dropWhile {ss : List Shape} (h : areKept ss = true) :
    areKept (ss.dropWhile Shape.isReached) = true := by
  induction ss with
  | nil => rfl
  | cons s ss ih =>
      rw [List.dropWhile_cons]
      split
      · rw [areKept, Bool.and_eq_true] at h
        exact ih h.2
      · exact h

mutual

theorem Piece.areKept_read (p : Piece) {behind : List Shape} (h : areKept behind = true) :
    areKept (p.read behind) = true := by
  cases p with
  | not =>
      have hreach : (behind.takeWhile Shape.isReached).all Shape.isReached = true :=
        List.all_takeWhile
      simp [Piece.read, areKept, Shape.isKept, hreach, areKept_takeWhile h, areKept_dropWhile h,
        isClear_dropWhile]
  | group inner =>
      have hinner : areKept (readAll inner []) = true := Piece.areKept_readAll inner rfl
      simp [Piece.read, h, hinner]
  | _ => simpa [Piece.read, areKept, Shape.isKept] using h

theorem Piece.areKept_readAll : (ps : List Piece) → {behind : List Shape} →
    areKept behind = true → areKept (readAll ps behind) = true
  | [], _, h => h
  | p :: ps, _, h => Piece.areKept_read p (Piece.areKept_readAll ps h)

end

mutual

/-- What is kept is read back. -/
theorem Shape.readAll_pieces (s : Shape) {behind : List Shape} (h : s.isKept behind = true) :
    Piece.readAll s.pieces behind = s :: behind := by
  cases s with
  | not reach =>
      simp only [isKept, Bool.and_eq_true] at h
      have hread := Shape.readAll_allPieces reach h.1.2 h.2
      have hall : ∀ u ∈ reach, u.isReached = true := List.all_eq_true.1 h.1.1
      have hstop : behind.takeWhile isReached = [] ∧ behind.dropWhile isReached = behind := by
        cases behind with
        | nil => exact ⟨rfl, rfl⟩
        | cons u us =>
            have hu : u.isReached = false := by simpa [isClear] using h.2
            simp [hu]
      rw [pieces, Piece.readAll, Piece.read, hread, List.takeWhile_append_of_pos hall,
        List.dropWhile_append_of_pos hall, hstop.1, hstop.2, List.append_nil]
  | group inner =>
      have hinner : Piece.readAll (allPieces inner) [] = inner ++ [] :=
        Shape.readAll_allPieces inner h rfl
      rw [pieces, Piece.readAll, Piece.readAll, Piece.read, hinner, List.append_nil]
  | _ => rfl

theorem Shape.readAll_allPieces : (ss : List Shape) → {behind : List Shape} →
    areKept ss = true → isClear behind = true →
    Piece.readAll (allPieces ss) behind = ss ++ behind
  | [], _, _, _ => rfl
  | s :: ss, behind, h, hbehind => by
    rw [areKept, Bool.and_eq_true] at h
    have hkept := isKept_of_isClear h.1 fun hss => isClear_append hss hbehind
    rw [allPieces, Piece.readAll_append, Shape.readAll_allPieces ss h.2 hbehind,
      Shape.readAll_pieces s hkept, List.cons_append]

end

theorem Shape.readAll_allPieces_iff (ss : List Shape) :
    Piece.readAll (allPieces ss) [] = ss ↔ areKept ss = true := by
  constructor
  · intro h
    rw [← h]
    exact Piece.areKept_readAll _ rfl
  · intro h
    rw [Shape.readAll_allPieces ss h rfl, List.append_nil]

/-! ## Putting together -/

def Shape.isNot : Shape → Bool
  | .not _ => true
  | _ => false

/-- Whether a `NOT` would take along what is put behind. -/
def endsOpen : List Shape → Bool
  | [] => false
  | s :: ss => if ss.isEmpty then s.isNot else endsOpen ss

theorem endsOpen_append_cons (ss us : List Shape) (u : Shape) :
    endsOpen (ss ++ u :: us) = endsOpen (u :: us) := by
  induction ss with
  | nil => rfl
  | cons s ss ih =>
      rw [List.cons_append, endsOpen, ih]
      simp

theorem areKept_append (ss us : List Shape) :
    areKept (ss ++ us) = (areKept ss && areKept us && (!endsOpen ss || isClear us)) := by
  induction ss with
  | nil => simp [areKept, endsOpen]
  | cons s ss ih =>
      rw [List.cons_append, areKept, ih, areKept, endsOpen]
      cases ss with
      | nil =>
          cases s <;>
            simp [areKept, Shape.isKept, Shape.isNot, endsOpen, isClear, Bool.and_comm,
              Bool.and_left_comm]
      | cons s' ss =>
          have hsame : s.isKept (s' :: ss ++ us) = s.isKept (s' :: ss) := by cases s <;> rfl
          rw [hsame]
          simp [Bool.and_assoc]

/-- Shapes with a separator or an operator between them. -/
def joinedBy (separator : Shape) : List (List Shape) → List Shape
  | [] => []
  | [ss] => ss
  | ss :: us :: rest => ss ++ separator :: joinedBy separator (us :: rest)

theorem areKept_joinedBy_separator (s : String) (sss : List (List Shape)) :
    areKept (joinedBy (.separator s) sss) = sss.all areKept := by
  induction sss with
  | nil => rfl
  | cons ss rest ih =>
      cases rest with
      | nil => simp [joinedBy]
      | cons us rest =>
          rw [joinedBy, areKept_append, areKept_separator, ih]
          simp

theorem areKept_joinedBy_operator (op : String) (sss : List (List Shape)) :
    areKept (joinedBy (.operator op) sss) =
      (sss.all areKept && sss.dropLast.all fun ss => !endsOpen ss || guards op) := by
  induction sss with
  | nil => rfl
  | cons ss rest ih =>
      cases rest with
      | nil => simp [joinedBy]
      | cons us rest =>
          rw [joinedBy, areKept_append, areKept_operator, ih]
          simp [Bool.and_left_comm, Bool.and_comm, Bool.and_assoc]

namespace Shape

/-- The text of the shapes, whatever is made of it. -/
def texts (ss : List Shape) : String := Piece.texts (allPieces ss)

@[simp] theorem texts_nil : texts [] = "" := rfl

@[simp] theorem texts_plain (s : String) (ss : List Shape) :
    texts (.plain s :: ss) = s ++ texts ss := rfl

@[simp] theorem texts_separator (s : String) (ss : List Shape) :
    texts (.separator s :: ss) = s ++ texts ss := rfl

@[simp] theorem texts_operator (op : String) (ss : List Shape) :
    texts (.operator op :: ss) = " " ++ op ++ " " ++ texts ss := rfl

@[simp] theorem texts_group (inner ss : List Shape) :
    texts (.group inner :: ss) = Term.parenthesised (texts inner) ++ texts ss := rfl

@[simp] theorem texts_append (ss us : List Shape) : texts (ss ++ us) = texts ss ++ texts us := by
  rw [texts, allPieces_append, Piece.texts_append]
  rfl

@[simp] theorem texts_not (reach ss : List Shape) :
    texts (.not reach :: ss) = "NOT" ++ texts reach ++ texts ss := by
  rw [texts, allPieces, pieces, List.cons_append, Piece.texts, Piece.texts_append,
    String.append_assoc]
  rfl

theorem texts_joinedBy {separator : Shape} {s : String} (hs : texts [separator] = s)
    (sss : List (List Shape)) :
    texts (joinedBy separator sss) = String.intercalate s (sss.map texts) := by
  have hcons : ∀ ss, texts (separator :: ss) = s ++ texts ss := by
    intro ss
    rw [← hs, ← texts_append]
    rfl
  induction sss with
  | nil => rfl
  | cons ss rest ih =>
      cases rest with
      | nil => simp [joinedBy]
      | cons us rest =>
          rw [joinedBy, texts_append, hcons, ih, List.map_cons, List.map_cons, List.map_cons,
            String.intercalate_cons_cons, String.append_assoc]

end Shape

end Syntax

/-! ## Terms -/

namespace Term

open Syntax

def grouped (nested : Bool) (ss : List Shape) : List Shape := if nested then [.group ss] else ss

def windowShapes (partition : List String) (order : List (List Shape)) (running : Bool) :
    List (List Shape) :=
  (if partition.isEmpty then [] else [[.plain ("PARTITION BY " ++ listed partition)]]) ++
    if order.isEmpty then []
    else (.plain "ORDER BY " :: joinedBy (.separator ", ") order) ::
      if running then [[.plain "ROWS UNBOUNDED PRECEDING"]] else []

mutual

/-- The shapes of a term, where a `NOT` has its own argument and nothing else. -/
def shapes (nested : Bool) : Term → List Shape
  | .column s | .literal s => [.plain s]
  | .apply function args =>
    [.plain function, .group (joinedBy (.separator ", ") (allShapes false args))]
  | .countStar => [.plain "COUNT", .group [.plain "*"]]
  | .countDistinct args =>
    [.plain "COUNT",
      .group (.plain "DISTINCT " :: joinedBy (.separator ", ") (allShapes false args))]
  | .substringFor string start length =>
    [.plain "SUBSTRING",
      .group (string.shapes false ++
        [.separator " FROM ", .plain (toString start.toInt), .separator " FOR ",
          .plain (toString length.toInt)])]
  | .cast operand type =>
    [.plain "CAST", .group (operand.shapes false ++ [.separator " AS ", .plain type])]
  | .conditional condition value none =>
    [.plain "CASE WHEN ", .group (condition.shapes false), .plain " THEN ",
      .group (value.shapes false), .plain " END"]
  | .conditional condition value (some otherwise) =>
    [.plain "CASE WHEN ", .group (condition.shapes false), .plain " THEN ",
      .group (value.shapes false), .plain " ELSE ", .group (otherwise.shapes false),
      .plain " END"]
  | .negate operand =>
    .plain "-" :: grouped ((operand.text true).toList.head? == some '-') (operand.shapes true)
  | .not operand => [.not [.group (operand.shapes false)]]
  | .isNull operand => [.group [.group (operand.shapes false), .plain " IS NULL"]]
  | .binary op left right =>
    grouped nested (left.shapes true ++ .operator op :: right.shapes true)
  | .between operand low high =>
    grouped nested
      (operand.shapes true ++ .operator "BETWEEN" ::
        (low.shapes true ++ .operator "AND" :: high.shapes true))
  | .inList operand items =>
    grouped nested
      (operand.shapes true ++
        [.operator "IN", .group (joinedBy (.separator ", ") (allShapes false items))])
  | .inTerm operand items =>
    grouped nested (operand.shapes true ++ .operator "IN" :: items.shapes true)
  | .concat parts => grouped nested (joinedBy (.operator "||") (allShapes true parts))
  | .windowed body partition order running =>
    body.shapes false ++
      [.plain " OVER ",
        .group (joinedBy (.separator " ") (windowShapes partition (allShapes true order) running))]
  | .descending key => key.shapes true ++ [.separator " DESC"]

def allShapes (nested : Bool) : List Term → List (List Shape)
  | [] => []
  | t :: rest => t.shapes nested :: allShapes nested rest

end

mutual

/-- Whether no operand that ends in a `NOT` stands in front of what binds more tightly. -/
def isSheltered : Term → Bool
  | .column _ | .literal _ | .countStar => true
  | .apply _ args | .countDistinct args => areSheltered args
  | .substringFor operand _ _ | .cast operand _ | .negate operand | .not operand
  | .isNull operand | .descending operand => operand.isSheltered
  | .conditional condition value none => condition.isSheltered && value.isSheltered
  | .conditional condition value (some otherwise) =>
    condition.isSheltered && value.isSheltered && otherwise.isSheltered
  | .binary op left right =>
    left.isSheltered && right.isSheltered && (!left.tail.isOpen || guards op)
  | .between operand low high =>
    operand.isSheltered && low.isSheltered && high.isSheltered && !operand.tail.isOpen
  | .inList operand items =>
    operand.isSheltered && areSheltered items && !operand.tail.isOpen
  | .inTerm operand items =>
    operand.isSheltered && items.isSheltered && !operand.tail.isOpen
  | .concat parts => areSheltered parts && parts.dropLast.all fun part => !part.tail.isOpen
  | .windowed body _ order _ =>
    body.isSheltered && areSheltered order && !endsOpen (body.shapes false)

def areSheltered : List Term → Bool
  | [] => true
  | t :: rest => t.isSheltered && areSheltered rest

end

theorem allShapes_eq_map (nested : Bool) (ts : List Term) :
    allShapes nested ts = ts.map (shapes nested) := by
  induction ts with
  | nil => rfl
  | cons t ts ih => rw [allShapes, ih, List.map_cons]

theorem texts_grouped (nested : Bool) (ss : List Shape) :
    Shape.texts (grouped nested ss) = parenthesisedIf nested (Shape.texts ss) := by
  cases nested <;> simp [grouped, parenthesisedIf]

theorem texts_listed (sss : List (List Shape)) :
    Shape.texts (joinedBy (.separator ", ") sss) = listed (sss.map Shape.texts) :=
  Shape.texts_joinedBy rfl sss

theorem texts_windowShapes (partition : List String) (order : List (List Shape))
    (running : Bool) :
    (windowShapes partition order running).map Shape.texts =
      partitionClause partition ++ orderClause (order.map Shape.texts) running := by
  rw [windowShapes, List.map_append, partitionClause, orderClause, List.isEmpty_map]
  congr 1
  · split <;> simp
  · split
    · rfl
    · split <;> simp [texts_listed]

mutual

theorem texts_shapes (nested : Bool) (t : Term) : Shape.texts (t.shapes nested) = t.text nested := by
  cases t with
  | column | literal | countStar => simp [shapes, text, parenthesised]
  | apply function args => simp [shapes, text, texts_listed, texts_allShapes false args]
  | countDistinct args => simp [shapes, text, texts_listed, texts_allShapes false args]
  | substringFor string =>
      simp [shapes, text, texts_shapes false string, String.append_assoc]
  | cast operand => simp [shapes, text, texts_shapes false operand, String.append_assoc]
  | conditional condition value otherwise =>
      cases otherwise with
      | none =>
          simp [shapes, text, texts_shapes false condition, texts_shapes false value,
            String.append_assoc]
      | some otherwise =>
          simp [shapes, text, texts_shapes false condition, texts_shapes false value,
            texts_shapes false otherwise, String.append_assoc]
  | negate operand =>
      rw [shapes, text, negated, Shape.texts_plain, texts_grouped, texts_shapes true operand]
      split <;> simp_all [parenthesisedIf]
  | not operand => simp [shapes, text, texts_shapes false operand]
  | isNull operand => simp [shapes, text, texts_shapes false operand]
  | binary op left right =>
      simp [shapes, text, texts_grouped, texts_shapes true left, texts_shapes true right,
        String.append_assoc]
  | between operand low high =>
      simp [shapes, text, texts_grouped, texts_shapes true operand, texts_shapes true low,
        texts_shapes true high, String.append_assoc]
  | inList operand items =>
      simp [shapes, text, texts_grouped, texts_shapes true operand, texts_listed,
        texts_allShapes false items, String.append_assoc]
  | inTerm operand items =>
      simp [shapes, text, texts_grouped, texts_shapes true operand, texts_shapes true items,
        String.append_assoc]
  | concat parts =>
      have hjoined := Shape.texts_joinedBy (show Shape.texts [.operator "||"] = " || " from rfl)
      rw [shapes, text, texts_grouped, hjoined, texts_allShapes true parts]
  | windowed body partition order running =>
      have hjoined := Shape.texts_joinedBy (show Shape.texts [.separator " "] = " " from rfl)
      simp [shapes, text, texts_shapes false body, hjoined, texts_windowShapes,
        texts_allShapes true order, String.append_assoc]
  | descending key => simp [shapes, text, texts_shapes true key]

theorem texts_allShapes (nested : Bool) : (ts : List Term) →
    (allShapes nested ts).map Shape.texts = texts nested ts
  | [] => rfl
  | t :: rest => by
    rw [allShapes, List.map_cons, texts_shapes nested t, texts_allShapes nested rest, texts]

end

theorem areKept_grouped (nested : Bool) (ss : List Shape) :
    areKept (grouped nested ss) = areKept ss := by
  cases nested with
  | false => rfl
  | true => simp [grouped]

theorem eq_not_of_tail {t : Term} (h : t.tail = .not) : ∃ operand, t = .not operand := by
  cases t with
  | not operand => exact ⟨operand, rfl⟩
  | negate operand =>
      rw [tail] at h
      cases htail : operand.tail <;> rw [htail] at h <;> cases h
  | _ => cases h

/-- As an operand, a term ends in a `NOT` as it is said of it. -/
theorem endsOpen_shapes (t : Term) : endsOpen (t.shapes true) = t.tail.isOpen := by
  cases t with
  | negate operand =>
      have ih := endsOpen_shapes operand
      rw [shapes, tail]
      cases htail : operand.tail with
      | closed =>
          rw [htail] at ih
          unfold grouped
          split <;> simp_all [endsOpen, Shape.isNot, Tail.negate]
      | not =>
          obtain ⟨operand, rfl⟩ := eq_not_of_tail htail
          simp [shapes, text, grouped, endsOpen, Shape.isNot, Tail.negate]
      | minusNot => simp [head_of_minusNot htail, grouped, endsOpen, Shape.isNot, Tail.negate]
  | conditional condition value otherwise => cases otherwise <;> rfl
  | windowed body =>
      rw [shapes, List.append_cons, endsOpen_append_cons]
      rfl
  | descending key =>
      rw [shapes, endsOpen_append_cons]
      rfl
  | _ => rfl

theorem areKept_windowShapes (partition : List String) (order : List (List Shape))
    (running : Bool) : (windowShapes partition order running).all areKept = order.all areKept := by
  have hkeys : areKept (.plain "ORDER BY " :: joinedBy (.separator ", ") order) =
      order.all areKept := areKept_joinedBy_separator ", " order
  have hpartition : (if partition.isEmpty then []
      else [[Shape.plain ("PARTITION BY " ++ listed partition)]]).all areKept = true := by
    split <;> simp
  rw [windowShapes, List.all_append, hpartition, Bool.true_and]
  split
  · next hempty => simp [List.isEmpty_iff.1 hempty]
  · rw [List.all_cons, hkeys]
    cases running <;> simp

mutual

/-- Every `NOT` of a term keeps to its argument just if no operator takes it further. -/
theorem areKept_shapes (nested : Bool) (t : Term) : areKept (t.shapes nested) = t.isSheltered := by
  have hguards : guards "AND" = true ∧ guards "BETWEEN" = false ∧ guards "IN" = false ∧
      guards "||" = false := by decide
  cases t with
  | column | literal | countStar => rfl
  | apply function args =>
      simp [shapes, isSheltered, areKept_joinedBy_separator, areKept_allShapes false args]
  | countDistinct args =>
      simp [shapes, isSheltered, areKept_joinedBy_separator, areKept_allShapes false args]
  | substringFor operand | cast operand | not operand | isNull operand =>
      simp [shapes, isSheltered, areKept_append, areKept_shapes false operand]
  | conditional condition value otherwise =>
      cases otherwise with
      | none =>
          simp [shapes, isSheltered, areKept_shapes false condition, areKept_shapes false value]
      | some otherwise =>
          simp [shapes, isSheltered, areKept_shapes false condition, areKept_shapes false value,
            areKept_shapes false otherwise, Bool.and_assoc]
  | negate operand =>
      simp [shapes, isSheltered, areKept_grouped, areKept_shapes true operand]
  | binary op left right =>
      simp [shapes, isSheltered, areKept_grouped, areKept_append, endsOpen_shapes,
        areKept_shapes true left, areKept_shapes true right]
  | between operand low high =>
      simp [shapes, isSheltered, areKept_grouped, areKept_append, endsOpen_shapes, hguards,
        areKept_shapes true operand, areKept_shapes true low, areKept_shapes true high,
        Bool.and_assoc]
  | inList operand items =>
      simp [shapes, isSheltered, areKept_grouped, areKept_append, endsOpen_shapes, hguards,
        areKept_joinedBy_separator, areKept_shapes true operand, areKept_allShapes false items]
  | inTerm operand items =>
      simp [shapes, isSheltered, areKept_grouped, areKept_append, endsOpen_shapes, hguards,
        areKept_shapes true operand, areKept_shapes true items]
  | concat parts =>
      rw [shapes, isSheltered, areKept_grouped, areKept_joinedBy_operator,
        areKept_allShapes true parts, allShapes_eq_map, ← List.map_dropLast, List.all_map]
      simp [Function.comp_def, endsOpen_shapes, hguards]
  | windowed body partition order running =>
      simp [shapes, isSheltered, areKept_append, areKept_joinedBy_separator, areKept_windowShapes,
        areKept_shapes false body, areKept_allShapes true order]
  | descending key => simp [shapes, isSheltered, areKept_append, areKept_shapes true key]

theorem areKept_allShapes (nested : Bool) : (ts : List Term) →
    (allShapes nested ts).all areKept = areSheltered ts
  | [] => rfl
  | t :: rest => by
    rw [allShapes, List.all_cons, areKept_shapes nested t, areKept_allShapes nested rest,
      areSheltered]

end

end Term

namespace Syntax

/-! ## Texts -/

theorem ensures_text {c : Compiler} {context : Context} {e : Expr} {before after : List Warning}
    {t : Term}
    (hterm : (c.term context.qualifier e (c.frame context)).run.run before = (.ok t, after)) :
    (c.compile context e).run.run before = (.ok (t.text false), after) ∧
      (c.compileOperand context e).run.run before = (.ok (t.text true), after) := by
  rw [Compiler.compile, Compiler.compileOperand, CompileM.run_bind, CompileM.run_bind, hterm]
  exact ⟨rfl, rfl⟩

/-- A `NOT` keeps to its own argument where no operand that ends in one stands in front of what binds
more tightly: the text of such an expression is read as the expression. In every term, windows
included, the text has each `NOT` reach its own argument just if no operand of the kind stands so. -/
theorem not_keeps_to_argument (c : Compiler) :
    (IsSpoken c → ∀ (g : Grammar) (qualifier : Option String) (e : Expr), IsSheltered c e →
      ∀ before after text, (c.compile ⟨none, qualifier⟩ e).run.run before = (.ok text, after) →
        ∃ tree, c.tree? g qualifier e = some tree ∧ g.parse c.dialect text = some tree ∧
          g.parse c.dialect (Term.parenthesisedIf (c.isOperation e) text) = some tree) ∧
    ∀ (context : Context) (e : Expr) before after t,
      (c.term context.qualifier e (c.frame context)).run.run before = (.ok t, after) →
        (c.compile context e).run.run before = (.ok (t.text false), after) ∧
        (c.compileOperand context e).run.run before = (.ok (t.text true), after) ∧
        ∀ nested, Piece.texts (Shape.allPieces (t.shapes nested)) = t.text nested ∧
          (Piece.readAll (Shape.allPieces (t.shapes nested)) [] = t.shapes nested ↔
            t.isSheltered = true) := by
  refine ⟨fun hspoken g qualifier e he before after text hcompile => ?_, ?_⟩
  · exact ensures_parse hspoken qualifier he before text after hcompile
  · intro context e before after t hterm
    obtain ⟨halone, hoperand⟩ := ensures_text hterm
    refine ⟨halone, hoperand, fun nested => ⟨t.texts_shapes nested, ?_⟩⟩
    rw [Shape.readAll_allPieces_iff, t.areKept_shapes]

def lessThanNot : Expr := .binary .lt (.column "a") (.unary .not (.column "b"))

def notLessThan (operand : Expr) : Expr := .binary .lt (.unary .not operand) (.column "b")

/-- What a sum over a window compiles to behind a `NOT` that stands in front. -/
def notLessThanTerm : Term :=
  .binary "<" (.not (.windowed (.apply "SUM" [.column "\"a\""]) ["\"g\""] [] false))
    (.column "\"b\"")

theorem not_keeps_to_argument_lessThan :
    let c := Compiler.builtin .ansi .default
    let context : Context := .windowed ["g"] []
    (IsSheltered c lessThanNot ∧
      (c.compile .scalar lessThanNot).run.run [] = (.ok "\"a\" < NOT(\"b\")", []) ∧
      Grammar.usual.parse .ansi "\"a\" < NOT(\"b\")" =
        some (.binary "<" (.column none "a") (.not (.column none "b")))) ∧
    (c.term none (notLessThan (.plainCall "sum" [.column "a"])) (c.frame context)).run.run [] =
        (.ok notLessThanTerm, []) ∧
      Piece.readAll (Shape.allPieces (notLessThanTerm.shapes false)) [] ≠
        notLessThanTerm.shapes false := by
  intro c context
  have hsheltered : IsSheltered c lessThanNot := ⟨by decide +kernel, by decide +kernel⟩
  have hcompile : (c.compile .scalar lessThanNot).run.run [] =
      (.ok "\"a\" < NOT(\"b\")", []) := rfl
  have hterm : (c.term none (notLessThan (.plainCall "sum" [.column "a"])) (c.frame context)).run.run
      [] = (.ok notLessThanTerm, []) := rfl
  obtain ⟨hparses, hreads⟩ := not_keeps_to_argument c
  obtain ⟨tree, htree, hparse, _⟩ :=
    hparses (isSpoken_builtin .ansi .default) .usual none lessThanNot hsheltered _ _ _ hcompile
  obtain ⟨_, _, hread⟩ := hreads context _ _ _ _ hterm
  refine ⟨⟨hsheltered, hcompile, hparse.trans (htree.symm.trans rfl)⟩, hterm, ?_⟩
  rw [Ne, (hread false).2]
  decide

/-- In front of a comparison, a `NOT` is read as the negation of the comparison. -/
theorem parse_notLessThan :
    let c := Compiler.builtin .ansi .default
    let e := notLessThan (.column "a")
    (c.compile .scalar e).run.run [] = (.ok "NOT(\"a\") < \"b\"", []) ∧
      c.tree? .usual none e = some (.binary "<" (.not (.column none "a")) (.column none "b")) ∧
      Grammar.usual.parse .ansi "NOT(\"a\") < \"b\"" =
        some (.not (.binary "<" (.column none "a") (.column none "b"))) ∧
      Grammar.usual.parse .ansi "NOT(\"a\") < \"b\"" ≠ c.tree? .usual none e := by
  intro c e
  have htree : c.tree? .usual none e =
      some (.binary "<" (.not (.column none "a")) (.column none "b")) := rfl
  have hlexemes : lexemes .ansi "NOT(\"a\") < \"b\"" =
      some [.word "NOT", .mark "(", .name "a", .mark ")", .mark "<", .name "b"] := by decide
  have hexpr : Grammar.usual.expr 13 0
      [.word "NOT", .mark "(", .name "a", .mark ")", .mark "<", .name "b"] =
        some (.not (.binary "<" (.column none "a") (.column none "b")), []) := by cbv
  have hparse : Grammar.usual.parse .ansi "NOT(\"a\") < \"b\"" =
      some (.not (.binary "<" (.column none "a") (.column none "b"))) := by
    rw [Grammar.parse, hlexemes]
    simp [hexpr]
  refine ⟨rfl, htree, hparse, ?_⟩
  rw [hparse, htree]
  simp

end Syntax

end SqlChain
