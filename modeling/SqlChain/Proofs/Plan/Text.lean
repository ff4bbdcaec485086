import SqlChain.Plan.Decode
import SqlChain.Proofs.Plan.Lexeme

/-!
# Values that are read back from their text

Reading the text of a value in front of any text that does not go on with a number gives the tree
of the value and leaves that text. A tree has a value as far as no part of it is nested too deep.
-/

namespace SqlChain

open JsonNumber (EndsNumber)

/-! ## Trees of values -/

namespace JsonTree

mutual

/-- The tree of a value. -/
def ofJson : Json → JsonTree
  | .null => .null
  | .bool b => .bool b
  | .number n => .number (some n)
  | .string s => .string (some s)
  | .array items => .array (ofItems items)
  | .object fields => .object (ofFields fields)

def ofItems : List Json → List JsonTree
  | [] => []
  | item :: rest => ofJson item :: ofItems rest

def ofFields : List (String × Json) → List (Option String × JsonTree)
  | [] => []
  | (key, value) :: rest => (some key, ofJson value) :: ofFields rest

end

mutual

theorem value?_ofJson (limit : Nat) :
    ∀ j : Json, (ofJson j).value? limit = if j.depth ≤ limit then some j else none
  | .null | .bool _ | .number _ | .string _ => by simp [ofJson, value?, Json.depth]
  | .array items => by
    cases limit with
    | zero => simp [ofJson, value?, Json.depth]
    | succ limit =>
      rw [ofJson, value?, itemValues?_ofItems limit items, Json.depth]
      simp only [Nat.add_le_add_iff_right]
      split <;> rfl
  | .object fields => by
    cases limit with
    | zero => simp [ofJson, value?, Json.depth]
    | succ limit =>
      rw [ofJson, value?, fieldValues?_ofFields limit fields, Json.depth]
      simp only [Nat.add_le_add_iff_right]
      split <;> rfl

theorem itemValues?_ofItems (limit : Nat) :
    ∀ items : List Json, itemValues? limit (ofItems items) =
      if Json.depthOfItems items ≤ limit then some items else none
  | [] => by simp [ofItems, itemValues?, Json.depthOfItems]
  | item :: rest => by
    rw [ofItems, itemValues?, value?_ofJson limit item, itemValues?_ofItems limit rest,
      Json.depthOfItems]
    simp only [Nat.max_le]
    by_cases hitem : item.depth ≤ limit <;> by_cases hrest : Json.depthOfItems rest ≤ limit <;>
      simp [hitem, hrest]

theorem fieldValues?_ofFields (limit : Nat) :
    ∀ fields : List (String × Json), fieldValues? limit (ofFields fields) =
      if Json.depthOfFields fields ≤ limit then some fields else none
  | [] => by simp [ofFields, fieldValues?, Json.depthOfFields]
  | (key, value) :: rest => by
    rw [ofFields, fieldValues?, value?_ofJson limit value, fieldValues?_ofFields limit rest,
      Json.depthOfFields]
    simp only [Nat.max_le]
    by_cases hvalue : value.depth ≤ limit <;> by_cases hrest : Json.depthOfFields rest ≤ limit <;>
      simp [hvalue, hrest]

end

end JsonTree

/-! ## Reading -/

namespace Json

mutual

/-- The numbers of a value, from left to right. -/
def numbers : Json → List JsonNumber
  | .number n => [n]
  | .array items => numbersOfItems items
  | .object fields => numbersOfFields fields
  | _ => []

def numbersOfItems : List Json → List JsonNumber
  | [] => []
  | item :: rest => item.numbers ++ numbersOfItems rest

def numbersOfFields : List (String × Json) → List JsonNumber
  | [] => []
  | (_, value) :: rest => value.numbers ++ numbersOfFields rest

end

theorem mem_numbersOfItems {n : JsonNumber} {items : List Json} :
    n ∈ numbersOfItems items ↔ ∃ item ∈ items, n ∈ item.numbers := by
  induction items with
  | nil => simp [numbersOfItems]
  | cons item rest ih => simp [numbersOfItems, ih]

theorem mem_numbersOfFields {n : JsonNumber} {fields : List (String × Json)} :
    n ∈ numbersOfFields fields ↔ ∃ field ∈ fields, n ∈ field.2.numbers := by
  induction fields with
  | nil => simp [numbersOfFields]
  | cons field rest ih =>
    rw [numbersOfFields, List.mem_append, ih]
    simp

/-- The values directly inside an array or an object. -/
def children : Json → List Json
  | .array items => items
  | .object fields => fields.map Prod.snd
  | _ => []

mutual

/-- What holds of a value whenever it holds of its children holds of every value. -/
theorem induct {P : Json → Prop} (step : ∀ j, (∀ c ∈ j.children, P c) → P j) : ∀ j, P j
  | .null | .bool _ | .number _ | .string _ => step _ fun _ h => by cases h
  | .array items => step _ fun c h => by
    have hs := induct_items step items
    exact hs c h
  | .object fields => step _ fun c h => by
    have hs := induct_fields step fields
    obtain ⟨field, hmem, rfl⟩ := List.mem_map.1 h
    exact hs field hmem

theorem induct_items {P : Json → Prop} (step : ∀ j, (∀ c ∈ j.children, P c) → P j) :
    ∀ items : List Json, ∀ item ∈ items, P item
  | [], _, h => by cases h
  | item :: rest, a, h => by
    have head := induct step item
    have tail := induct_items step rest a
    rcases List.mem_cons.1 h with h | h
    · exact h ▸ head
    · exact tail h

theorem induct_fields {P : Json → Prop} (step : ∀ j, (∀ c ∈ j.children, P c) → P j) :
    ∀ fields : List (String × Json), ∀ field ∈ fields, P field.2
  | [], _, h => by cases h
  | (_, value) :: rest, a, h => by
    have head := induct step value
    have tail := induct_fields step rest a
    rcases List.mem_cons.1 h with h | h
    · exact h ▸ head
    · exact tail h

end

/-- The items of an array behind its bracket. -/
def itemsText (items : List Json) : List Char :=
  (String.intercalate "," (texts items)).toList ++ [']']

/-- The fields of an object behind its brace. -/
def fieldsText (fields : List (String × Json)) : List Char :=
  (String.intercalate "," (fieldTexts fields)).toList ++ ['\x7d']

theorem toList_text_array (items : List Json) (rest : List Char) :
    (text (.array items)).toList ++ rest = '[' :: (itemsText items ++ rest) := by
  simp [text, itemsText, String.toList_append]

theorem toList_text_object (fields : List (String × Json)) (rest : List Char) :
    (text (.object fields)).toList ++ rest = '\x7b' :: (fieldsText fields ++ rest) := by
  simp [text, fieldsText, String.toList_append]

theorem itemsText_singleton (item : Json) : itemsText [item] = item.text.toList ++ [']'] := by
  simp [itemsText, texts]

theorem itemsText_cons (item next : Json) (rest : List Json) :
    itemsText (item :: next :: rest) = item.text.toList ++ ',' :: itemsText (next :: rest) := by
  simp [itemsText, texts, String.intercalate_cons_cons, String.toList_append]

theorem fieldsText_singleton (key : String) (value : Json) :
    fieldsText [(key, value)] =
      (stringText key).toList ++ ':' :: (value.text.toList ++ ['\x7d']) := by
  simp [fieldsText, fieldTexts, String.toList_append]

theorem fieldsText_cons (key : String) (value : Json) (next : String × Json)
    (rest : List (String × Json)) :
    fieldsText ((key, value) :: next :: rest) =
      (stringText key).toList ++ ':' :: (value.text.toList ++ ',' :: fieldsText (next :: rest)) := by
  simp [fieldsText, fieldTexts, String.intercalate_cons_cons, String.toList_append]

/-- Every text of a value begins with a character that is neither blank nor a closing bracket. -/
theorem exists_text_cons (j : Json) (h : ∀ n ∈ j.numbers, n.Survives) :
    ∃ c cs, j.text.toList = c :: cs ∧ JsonTree.isBlank c = false ∧ c ≠ ']' := by
  cases j with
  | null => exact ⟨'n', _, rfl, by decide, by decide⟩
  | bool b => cases b <;> exact ⟨_, _, rfl, by decide, by decide⟩
  | number n =>
    obtain ⟨c, cs, htext, hc⟩ := (h n (by simp [numbers])).head
    refine ⟨c, cs, htext, ?_, ?_⟩
    · rcases hc with rfl | hc
      · decide
      · cases hblank : JsonTree.isBlank c with
        | false => rfl
        | true =>
          simp only [JsonTree.isBlank, Bool.or_eq_true, beq_iff_eq] at hblank
          rcases hblank with ((rfl | rfl) | rfl) | rfl <;> cases hc
    · rintro rfl
      rcases hc with hc | hc <;> cases hc
  | string s =>
    have htext := JsonTree.toList_stringText s []
    rw [List.append_nil] at htext
    exact ⟨'"', _, htext, by decide, by decide⟩
  | array items =>
    have htext := toList_text_array items []
    rw [List.append_nil] at htext
    exact ⟨'[', _, htext, by decide, by decide⟩
  | object fields =>
    have htext := toList_text_object fields []
    rw [List.append_nil] at htext
    exact ⟨'\x7b', _, htext, by decide, by decide⟩

end Json

namespace JsonTree

theorem skipBlanks_cons {c : Char} (h : isBlank c = false) (cs : List Char) :
    skipBlanks (c :: cs) = c :: cs := by
  simp [skipBlanks, h]

theorem front?_number {c : Char} (hc : c = '-' ∨ c.isDigit = true) (fuel : Nat) (cs : List Char) :
    front? (fuel + 1) (c :: cs) =
      (JsonNumber.read? (c :: cs)).map fun (n, rest) => (.number n, rest) := by
  have hblank : isBlank c = false := by
    rcases hc with rfl | hc
    · decide
    · cases hblank : isBlank c with
      | false => rfl
      | true =>
        simp only [isBlank, Bool.or_eq_true, beq_iff_eq] at hblank
        rcases hblank with ((rfl | rfl) | rfl) | rfl <;> cases hc
  rw [front?, skipBlanks_cons hblank]
  split <;> rename_i heq
  case h_7 => rfl
  all_goals
    cases heq
    rcases hc with hc | hc <;> cases hc

theorem front?_stringText {fuel : Nat} (s : String) (rest : List Char)
    (h : (Json.stringText s).toList.length ≤ fuel) :
    front? fuel ((Json.stringText s).toList ++ rest) = some (.string (some s), rest) := by
  have hlength := length_le_stringText s
  obtain ⟨fuel, rfl⟩ := Nat.exists_eq_succ_of_ne_zero (by omega : fuel ≠ 0)
  rw [toList_stringText, front?, skipBlanks_cons (by decide)]
  simp only [stringRest?_stringText s rest (by omega : s.toList.length < fuel)]
  rfl

theorem endsNumber_cons {c : Char} {cs : List Char} (hdigit : c.isDigit = false)
    (hmark : c ≠ '.' ∧ c ≠ 'e' ∧ c ≠ 'E') : EndsNumber (c :: cs) := by
  intro d hd
  obtain rfl : c = d := by simpa using hd
  exact ⟨hdigit, hmark⟩

theorem endsNumber_nil : EndsNumber [] := by
  intro c h
  cases h

theorem arrayRest?_comma {fuel : Nat} {before : List JsonTree} {cs rest : List Char}
    {item : JsonTree} (h : front? fuel (cs ++ ',' :: rest) = some (item, ',' :: rest)) :
    arrayRest? (fuel + 1) before (cs ++ ',' :: rest) = arrayRest? fuel (item :: before) rest := by
  rw [arrayRest?, h]
  rfl

theorem arrayRest?_close {fuel : Nat} {before : List JsonTree} {cs rest : List Char}
    {item : JsonTree} (h : front? fuel (cs ++ ']' :: rest) = some (item, ']' :: rest)) :
    arrayRest? (fuel + 1) before (cs ++ ']' :: rest) =
      some (.array (item :: before).reverse, rest) := by
  rw [arrayRest?, h]
  rfl

theorem objectRest?_comma {fuel : Nat} {before : List (Option String × JsonTree)} {key : String}
    {cs rest : List Char} {item : JsonTree} (hkey : key.toList.length < fuel)
    (hvalue : front? fuel cs = some (item, ',' :: rest)) :
    objectRest? (fuel + 1) before ((Json.stringText key).toList ++ ':' :: cs) =
      objectRest? fuel ((some key, item) :: before) rest := by
  have hcolon := skipBlanks_cons (by decide : isBlank ':' = false) cs
  rw [toList_stringText, objectRest?, skipBlanks_cons (by decide)]
  simp only [stringRest?_stringText key (':' :: cs) hkey, hcolon, hvalue]
  rfl

theorem objectRest?_close {fuel : Nat} {before : List (Option String × JsonTree)} {key : String}
    {cs rest : List Char} {item : JsonTree} (hkey : key.toList.length < fuel)
    (hvalue : front? fuel cs = some (item, '\x7d' :: rest)) :
    objectRest? (fuel + 1) before ((Json.stringText key).toList ++ ':' :: cs) =
      some (.object ((some key, item) :: before).reverse, rest) := by
  have hcolon := skipBlanks_cons (by decide : isBlank ':' = false) cs
  rw [toList_stringText, objectRest?, skipBlanks_cons (by decide)]
  simp only [stringRest?_stringText key (':' :: cs) hkey, hcolon, hvalue]
  rfl

/-- A value is what its text is read as, whatever follows that does not go on with a number. Twice
as many steps as the text has characters are enough. -/
def IsReadBack (j : Json) : Prop :=
  ∀ (fuel : Nat) (rest : List Char), 2 * j.text.toList.length < fuel → EndsNumber rest →
    front? fuel (j.text.toList ++ rest) = some (ofJson j, rest)

theorem isReadBack_null : IsReadBack .null := by
  intro fuel rest h _
  obtain ⟨fuel, rfl⟩ := Nat.exists_eq_succ_of_ne_zero (by omega : fuel ≠ 0)
  show front? (fuel + 1) ('n' :: 'u' :: 'l' :: 'l' :: rest) = _
  rw [front?, skipBlanks_cons (by decide)]
  rfl

theorem isReadBack_bool (b : Bool) : IsReadBack (.bool b) := by
  intro fuel rest h _
  obtain ⟨fuel, rfl⟩ := Nat.exists_eq_succ_of_ne_zero (by omega : fuel ≠ 0)
  cases b with
  | true =>
    show front? (fuel + 1) ('t' :: 'r' :: 'u' :: 'e' :: rest) = _
    rw [front?, skipBlanks_cons (by decide)]
    rfl
  | false =>
    show front? (fuel + 1) ('f' :: 'a' :: 'l' :: 's' :: 'e' :: rest) = _
    rw [front?, skipBlanks_cons (by decide)]
    rfl

theorem isReadBack_number {n : JsonNumber} (h : n.Survives) : IsReadBack (.number n) := by
  intro fuel rest hfuel hrest
  obtain ⟨fuel, rfl⟩ := Nat.exists_eq_succ_of_ne_zero (by omega : fuel ≠ 0)
  have happend := h.append hrest
  obtain ⟨c, cs, htext, hc⟩ := h.head
  rw [htext] at happend
  rw [Json.text, htext, List.cons_append, front?_number hc, ← List.cons_append, happend]
  rfl

theorem isReadBack_string (s : String) : IsReadBack (.string s) := by
  intro fuel rest hfuel _
  rw [Json.text] at hfuel ⊢
  exact front?_stringText s rest (by omega)

theorem arrayRest?_itemsText {items : List Json} {fuel : Nat} (before : List JsonTree)
    (rest : List Char) (hitems : ∀ item ∈ items, IsReadBack item) (hne : items ≠ [])
    (hfuel : 2 * (Json.itemsText items).length ≤ fuel) :
    arrayRest? fuel before (Json.itemsText items ++ rest) =
      some (.array (before.reverse ++ ofItems items), rest) := by
  induction items generalizing fuel before with
  | nil => exact absurd rfl hne
  | cons item items ih =>
    have hitem : IsReadBack item := hitems item (by simp)
    cases items with
    | nil =>
      rw [Json.itemsText_singleton, List.length_append, List.length_singleton] at hfuel
      obtain ⟨fuel, rfl⟩ := Nat.exists_eq_succ_of_ne_zero (by omega : fuel ≠ 0)
      have hread := hitem fuel (']' :: rest) (by omega)
        (endsNumber_cons (by decide) (by decide))
      rw [Json.itemsText_singleton, List.append_assoc, List.singleton_append,
        arrayRest?_close hread, List.reverse_cons]
      rfl
    | cons next items =>
      rw [Json.itemsText_cons, List.length_append, List.length_cons] at hfuel
      obtain ⟨fuel, rfl⟩ := Nat.exists_eq_succ_of_ne_zero (by omega : fuel ≠ 0)
      have hread := hitem fuel (',' :: (Json.itemsText (next :: items) ++ rest)) (by omega)
        (endsNumber_cons (by decide) (by decide))
      have hmore := ih (ofJson item :: before)
        (fun item hmem => hitems item (List.mem_cons_of_mem _ hmem)) (by simp)
        (by omega : _ ≤ fuel)
      rw [Json.itemsText_cons, List.append_assoc, List.cons_append, arrayRest?_comma hread, hmore]
      simp [ofItems]

theorem objectRest?_fieldsText {fields : List (String × Json)} {fuel : Nat}
    (before : List (Option String × JsonTree)) (rest : List Char)
    (hfields : ∀ field ∈ fields, IsReadBack field.2) (hne : fields ≠ [])
    (hfuel : 2 * (Json.fieldsText fields).length ≤ fuel) :
    objectRest? fuel before (Json.fieldsText fields ++ rest) =
      some (.object (before.reverse ++ ofFields fields), rest) := by
  induction fields generalizing fuel before with
  | nil => exact absurd rfl hne
  | cons field fields ih =>
    obtain ⟨key, value⟩ := field
    have hvalue : IsReadBack value := hfields (key, value) (by simp)
    have hlength := length_le_stringText key
    cases fields with
    | nil =>
      rw [Json.fieldsText_singleton, List.length_append, List.length_cons, List.length_append,
        List.length_singleton] at hfuel
      obtain ⟨fuel, rfl⟩ := Nat.exists_eq_succ_of_ne_zero (by omega : fuel ≠ 0)
      have hread := hvalue fuel ('\x7d' :: rest) (by omega)
        (endsNumber_cons (by decide) (by decide))
      rw [Json.fieldsText_singleton, List.append_assoc, List.cons_append, List.append_assoc,
        List.singleton_append, objectRest?_close (by omega) hread, List.reverse_cons]
      rfl
    | cons next fields =>
      rw [Json.fieldsText_cons, List.length_append, List.length_cons, List.length_append,
        List.length_cons] at hfuel
      obtain ⟨fuel, rfl⟩ := Nat.exists_eq_succ_of_ne_zero (by omega : fuel ≠ 0)
      have hread := hvalue fuel (',' :: (Json.fieldsText (next :: fields) ++ rest)) (by omega)
        (endsNumber_cons (by decide) (by decide))
      have hmore := ih ((some key, ofJson value) :: before)
        (fun field hmem => hfields field (List.mem_cons_of_mem _ hmem)) (by simp)
        (by omega : _ ≤ fuel)
      rw [Json.fieldsText_cons, List.append_assoc, List.cons_append, List.append_assoc,
        List.cons_append, objectRest?_comma (by omega) hread, hmore]
      simp [ofFields]

theorem isReadBack_array {items : List Json} (hitems : ∀ item ∈ items, IsReadBack item)
    (hbegins : ∀ item ∈ items, ∃ c cs, item.text.toList = c :: cs ∧ isBlank c = false ∧ c ≠ ']') :
    IsReadBack (.array items) := by
  intro fuel rest hfuel _
  obtain ⟨fuel, rfl⟩ := Nat.exists_eq_succ_of_ne_zero (by omega : fuel ≠ 0)
  rw [Json.toList_text_array, front?, skipBlanks_cons (by decide)]
  cases items with
  | nil =>
    rfl
  | cons item items =>
    have hlength := congrArg List.length (Json.toList_text_array (item :: items) [])
    simp only [List.append_nil, List.length_cons] at hlength
    obtain ⟨c, cs, htext, hblank, hclose⟩ := hbegins item (by simp)
    have hread := arrayRest?_itemsText [] rest hitems (by simp) (by omega : _ ≤ fuel)
    obtain ⟨more, hmore⟩ : ∃ more, Json.itemsText (item :: items) = c :: more := by
      cases items with
      | nil => exact ⟨_, by rw [Json.itemsText_singleton, htext]; rfl⟩
      | cons next items => exact ⟨_, by rw [Json.itemsText_cons, htext]; rfl⟩
    rw [hmore, List.cons_append] at hread ⊢
    simp only [skipBlanks_cons hblank]
    split
    · rename_i heq
      cases heq
      exact absurd rfl hclose
    · rw [hread]
      rfl

theorem isReadBack_object {fields : List (String × Json)}
    (hfields : ∀ field ∈ fields, IsReadBack field.2) : IsReadBack (.object fields) := by
  intro fuel rest hfuel _
  obtain ⟨fuel, rfl⟩ := Nat.exists_eq_succ_of_ne_zero (by omega : fuel ≠ 0)
  rw [Json.toList_text_object, front?, skipBlanks_cons (by decide)]
  cases fields with
  | nil =>
    rfl
  | cons field fields =>
    have hlength := congrArg List.length (Json.toList_text_object (field :: fields) [])
    simp only [List.append_nil, List.length_cons] at hlength
    have hread := objectRest?_fieldsText [] rest hfields (by simp) (by omega : _ ≤ fuel)
    obtain ⟨more, hmore⟩ : ∃ more, Json.fieldsText (field :: fields) = '"' :: more := by
      cases fields with
      | nil => exact ⟨_, by rw [Json.fieldsText_singleton, toList_stringText]⟩
      | cons next fields => exact ⟨_, by rw [Json.fieldsText_cons, toList_stringText]⟩
    rw [hmore, List.cons_append] at hread ⊢
    simp only [skipBlanks_cons (by decide : isBlank '"' = false)]
    show objectRest? fuel [] ('"' :: (more ++ rest)) = _
    rw [hread]
    rfl

theorem isReadBack (j : Json) : (∀ n ∈ j.numbers, n.Survives) → IsReadBack j := by
  induction j using Json.induct with
  | step j ih =>
    intro hn
    cases j with
    | null => exact isReadBack_null
    | bool b => exact isReadBack_bool b
    | number n => exact isReadBack_number (hn n (by simp [Json.numbers]))
    | string s => exact isReadBack_string s
    | array items =>
      have hitems (item) (hmem : item ∈ items) (n) (h : n ∈ item.numbers) : n.Survives :=
        hn n (Json.mem_numbersOfItems.2 ⟨item, hmem, h⟩)
      have hread : ∀ item ∈ items, IsReadBack item := fun item hmem =>
        ih item hmem (hitems item hmem)
      exact isReadBack_array hread fun item hmem => item.exists_text_cons (hitems item hmem)
    | object fields =>
      refine isReadBack_object fun field hmem => ?_
      exact ih field.2 (List.mem_map_of_mem hmem) fun n h =>
        hn n (Json.mem_numbersOfFields.2 ⟨field, hmem, h⟩)

theorem read?_text {j : Json} (h : ∀ n ∈ j.numbers, n.Survives) :
    read? j.text = some (ofJson j) := by
  have hfront := isReadBack j h (2 * j.text.toList.length + 2) [] (by omega) endsNumber_nil
  rw [List.append_nil] at hfront
  simp [read?, hfront, skipBlanks]

end JsonTree

namespace Json

theorem read?_text {j : Json} (h : ∀ n ∈ j.numbers, n.Survives) (limit : Nat) :
    read? limit j.text = if j.depth ≤ limit then some j else none := by
  rw [read?, JsonTree.read?_text h, Option.bind_eq_bind, Option.bind_some, JsonTree.value?_ofJson]

end Json

end SqlChain
