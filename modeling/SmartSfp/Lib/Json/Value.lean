import SmartSfp.Lib.Json.Token

/-!
# Value — JSON values, their compact text, and a reader

The reader takes the whole grammar, white space included.  It runs on fuel twice as long as the
text, which is enough because every second call takes a character.  What it reads of the text of a
value is the value.
-/

namespace SmartSfp.Lib

inductive Json where
  | null
  | bool (b : Bool)
  | num (x : Json.Number)
  | str (s : List Char)
  | arr (items : List Json)
  | obj (members : List (List Char × Json))

namespace Json

mutual

/-- The text without white space. -/
def text : Json → List Char
  | .null => "null".toList
  | .bool true => "true".toList
  | .bool false => "false".toList
  | .num x => x.lexeme
  | .str s => quote s
  | .arr [] => ['[', ']']
  | .arr (v :: vs) => '[' :: (text v ++ itemsText vs)
  | .obj [] => ['{', '}']
  | .obj ((k, v) :: ms) => '{' :: (quote k ++ ':' :: (text v ++ membersText ms))

/-- The text of an array from behind an item on. -/
def itemsText : List Json → List Char
  | [] => [']']
  | v :: vs => ',' :: (text v ++ itemsText vs)

/-- The text of an object from behind a member on. -/
def membersText : List (List Char × Json) → List Char
  | [] => ['}']
  | (k, v) :: ms => ',' :: (quote k ++ ':' :: (text v ++ membersText ms))

end

/-! ## The reader -/

def isSpace (c : Char) : Bool := c = ' ' || c = '\t' || c = '\n' || c = '\r'

def skipSpaces (cs : List Char) : List Char := cs.dropWhile isSpace

/-- The rest of a literal of which the first character is read. -/
def readWord (word : List Char) (v : Json) (cs : List Char) : Option (Json × List Char) :=
  if word.isPrefixOf cs then some (v, cs.drop word.length) else none

mutual

/-- A value and what follows it. -/
def readValue : Nat → List Char → Option (Json × List Char)
  | 0, _ => none
  | fuel + 1, cs =>
    match skipSpaces cs with
    | [] => none
    | c :: rest =>
      if c = '"' then do
        let (s, rest) ← readString rest
        return (.str s, rest)
      else if c = '[' then
        match skipSpaces rest with
        | [] => none
        | d :: tail =>
          if d = ']' then some (.arr [], tail)
          else do
            let (vs, rest) ← readItems fuel (d :: tail)
            return (.arr vs, rest)
      else if c = '{' then
        match skipSpaces rest with
        | [] => none
        | d :: tail =>
          if d = '}' then some (.obj [], tail)
          else do
            let (ms, rest) ← readMembers fuel (d :: tail)
            return (.obj ms, rest)
      else if c = 'n' then readWord "ull".toList .null rest
      else if c = 't' then readWord "rue".toList (.bool true) rest
      else if c = 'f' then readWord "alse".toList (.bool false) rest
      else do
        let (x, rest) ← readNumber (c :: rest)
        return (.num x, rest)

/-- One or more items of an array up to its end. -/
def readItems : Nat → List Char → Option (List Json × List Char)
  | 0, _ => none
  | fuel + 1, cs => do
    let (v, rest) ← readValue fuel cs
    match skipSpaces rest with
    | [] => none
    | c :: rest =>
      if c = ']' then some ([v], rest)
      else if c = ',' then do
        let (vs, rest) ← readItems fuel rest
        return (v :: vs, rest)
      else none

/-- One or more members of an object up to its end. -/
def readMembers : Nat → List Char → Option (List (List Char × Json) × List Char)
  | 0, _ => none
  | fuel + 1, cs =>
    match skipSpaces cs with
    | [] => none
    | c :: rest =>
      if c ≠ '"' then none
      else do
        let (k, rest) ← readString rest
        match skipSpaces rest with
        | [] => none
        | c :: rest =>
          if c ≠ ':' then none
          else do
            let (v, rest) ← readValue fuel rest
            match skipSpaces rest with
            | [] => none
            | c :: rest =>
              if c = '}' then some ([(k, v)], rest)
              else if c = ',' then do
                let (ms, rest) ← readMembers fuel rest
                return ((k, v) :: ms, rest)
              else none

end

/-- The value of a whole text. -/
def read (cs : List Char) : Option Json := do
  let (v, rest) ← readValue (2 * cs.length + 1) cs
  if skipSpaces rest = [] then some v else none

example : (read " [1, -2.5e3, null, \"\\u00e9\"]".toList).map text =
    some "[1,-2.5e3,null,\"é\"]".toList := by
  decide +kernel

/-! ## Reading the text of a value -/

theorem skipSpaces_cons {c : Char} (hc : isSpace c = false) (cs : List Char) :
    skipSpaces (c :: cs) = c :: cs := List.dropWhile_cons_of_neg (by simp [hc])

/-- How a text starts. -/
structure Head (c : Char) : Prop where
  not_space : isSpace c = false
  not_close : c ≠ ']'

theorem head_of_numberChar {c : Char} (h : isNumberChar c = true) :
    Head c ∧ c ≠ '"' ∧ c ≠ '[' ∧ c ≠ '{' ∧ c ≠ 'n' ∧ c ≠ 't' ∧ c ≠ 'f' := by
  have hne : ∀ d, isNumberChar d = false → c ≠ d := by
    intro d hd heq
    rw [heq, hd] at h
    cases h
  refine ⟨⟨?_, hne _ (by decide)⟩, hne _ (by decide), hne _ (by decide), hne _ (by decide),
    hne _ (by decide), hne _ (by decide), hne _ (by decide)⟩
  simp [isSpace, hne ' ' (by decide), hne '\t' (by decide), hne '\n' (by decide),
    hne '\r' (by decide)]

theorem text_eq_cons (v : Json) : ∃ c tail, text v = c :: tail ∧ Head c := by
  cases v with
  | null => exact ⟨'n', _, by rw [text]; rfl, by decide, by decide⟩
  | bool b =>
    cases b with
    | true => exact ⟨'t', _, by rw [text]; rfl, by decide, by decide⟩
    | false => exact ⟨'f', _, by rw [text]; rfl, by decide, by decide⟩
  | num x =>
    rw [text]
    cases hx : x.lexeme with
    | nil => exact absurd hx x.lexeme_ne_nil
    | cons c tail =>
      have hc := x.all_numberChar c (by rw [hx]; exact List.mem_cons_self)
      exact ⟨c, tail, rfl, (head_of_numberChar hc).1⟩
  | str s => exact ⟨'"', _, by rw [text, quote], by decide, by decide⟩
  | arr items =>
    cases items with
    | nil => exact ⟨'[', _, by rw [text], by decide, by decide⟩
    | cons v vs => exact ⟨'[', _, by rw [text], by decide, by decide⟩
  | obj members =>
    cases members with
    | nil => exact ⟨'{', _, by rw [text], by decide, by decide⟩
    | cons m ms => exact ⟨'{', _, by rw [text], by decide, by decide⟩

theorem itemsText_eq_cons (vs : List Json) :
    ∃ c tail, itemsText vs = c :: tail ∧ isNumberChar c = false := by
  cases vs with
  | nil => exact ⟨']', [], by rw [itemsText], by decide⟩
  | cons v vs => exact ⟨',', _, by rw [itemsText], by decide⟩

theorem membersText_eq_cons (ms : List (List Char × Json)) :
    ∃ c tail, membersText ms = c :: tail ∧ isNumberChar c = false := by
  cases ms with
  | nil => exact ⟨'}', [], by rw [membersText], by decide⟩
  | cons m ms => exact ⟨',', _, by rw [membersText], by decide⟩

theorem noNumberChar_append {cs : List Char} (h : ∃ c tail, cs = c :: tail ∧ isNumberChar c = false)
    (rest : List Char) : NoNumberChar (cs ++ rest) := by
  obtain ⟨c, tail, rfl, hc⟩ := h
  exact noNumberChar_cons hc

/-- What fuel for a text is enough for. -/
structure Reads (fuel : Nat) : Prop where
  value : ∀ v rest, 2 * (text v).length ≤ fuel → NoNumberChar rest →
    readValue fuel (text v ++ rest) = some (v, rest)
  items : ∀ v vs rest, 2 * ((text v).length + (itemsText vs).length) ≤ fuel →
    readItems fuel (text v ++ (itemsText vs ++ rest)) = some (v :: vs, rest)
  members : ∀ k v ms rest,
    2 * ((quote k).length + 1 + (text v).length + (membersText ms).length) ≤ fuel →
    readMembers fuel (quote k ++ ':' :: (text v ++ (membersText ms ++ rest))) =
      some ((k, v) :: ms, rest)

theorem readValue_str (fuel : Nat) (s rest : List Char) :
    readValue (fuel + 1) (quote s ++ rest) = some (.str s, rest) := by
  have hs := readString_quote s rest
  rw [quote, List.cons_append, List.append_assoc, readValue, skipSpaces_cons (by decide)]
  dsimp only
  rw [if_pos rfl, List.singleton_append, hs]
  rfl

theorem readValue_num (fuel : Nat) (x : Number) {rest : List Char} (hrest : NoNumberChar rest) :
    readValue (fuel + 1) (x.lexeme ++ rest) = some (.num x, rest) := by
  have hread := readNumber_lexeme x hrest
  cases hx : x.lexeme with
  | nil => exact absurd hx x.lexeme_ne_nil
  | cons c tail =>
    obtain ⟨hhead, h1, h2, h3, h4, h5, h6⟩ :=
      head_of_numberChar (x.all_numberChar c (by rw [hx]; exact List.mem_cons_self))
    rw [hx] at hread
    rw [List.cons_append, readValue, skipSpaces_cons hhead.not_space]
    dsimp only
    rw [if_neg h1, if_neg h2, if_neg h3, if_neg h4, if_neg h5, if_neg h6, ← List.cons_append, hread]
    rfl

theorem readWord_append (word : List Char) (v : Json) (rest : List Char) :
    readWord word v (word ++ rest) = some (v, rest) := by
  have hword : word.isPrefixOf (word ++ rest) = true :=
    List.isPrefixOf_iff_prefix.mpr (List.prefix_append word rest)
  rw [readWord, if_pos hword, List.drop_left]

theorem readValue_null (fuel : Nat) (rest : List Char) :
    readValue (fuel + 1) (text .null ++ rest) = some (.null, rest) := by
  have hword : "null".toList = 'n' :: "ull".toList := by decide
  rw [text, hword, List.cons_append, readValue, skipSpaces_cons (by decide)]
  dsimp only
  rw [if_neg (by decide), if_neg (by decide), if_neg (by decide), if_pos rfl, readWord_append]

theorem readValue_bool (fuel : Nat) (b : Bool) (rest : List Char) :
    readValue (fuel + 1) (text (.bool b) ++ rest) = some (.bool b, rest) := by
  cases b with
  | true =>
    have hword : "true".toList = 't' :: "rue".toList := by decide
    rw [text, hword, List.cons_append, readValue, skipSpaces_cons (by decide)]
    dsimp only
    rw [if_neg (by decide), if_neg (by decide), if_neg (by decide), if_neg (by decide), if_pos rfl,
      readWord_append]
  | false =>
    have hword : "false".toList = 'f' :: "alse".toList := by decide
    rw [text, hword, List.cons_append, readValue, skipSpaces_cons (by decide)]
    dsimp only
    rw [if_neg (by decide), if_neg (by decide), if_neg (by decide), if_neg (by decide),
      if_neg (by decide), if_pos rfl, readWord_append]

theorem Reads.arr {fuel : Nat} (h : Reads fuel) (items : List Json) (rest : List Char)
    (hfuel : 2 * (text (.arr items)).length ≤ fuel + 1) :
    readValue (fuel + 1) (text (.arr items) ++ rest) = some (.arr items, rest) := by
  cases items with
  | nil =>
    rw [text, List.cons_append, readValue, skipSpaces_cons (by decide)]
    rfl
  | cons v vs =>
    obtain ⟨c, tail, htext, hc⟩ := text_eq_cons v
    rw [text] at hfuel ⊢
    simp only [List.length_cons, List.length_append] at hfuel
    have hitems := h.items v vs rest (by omega)
    rw [List.cons_append, List.append_assoc, readValue, skipSpaces_cons (by decide)]
    dsimp only
    rw [if_neg (by decide), if_pos rfl]
    rw [htext, List.cons_append] at hitems ⊢
    rw [skipSpaces_cons hc.not_space]
    dsimp only
    rw [if_neg hc.not_close, hitems]
    rfl

theorem Reads.obj {fuel : Nat} (h : Reads fuel) (members : List (List Char × Json))
    (rest : List Char) (hfuel : 2 * (text (.obj members)).length ≤ fuel + 1) :
    readValue (fuel + 1) (text (.obj members) ++ rest) = some (.obj members, rest) := by
  cases members with
  | nil =>
    rw [text, List.cons_append, readValue, skipSpaces_cons (by decide)]
    rfl
  | cons m ms =>
    obtain ⟨k, v⟩ := m
    rw [text] at hfuel ⊢
    simp only [List.length_cons, List.length_append] at hfuel
    have hmembers := h.members k v ms rest (by omega)
    rw [List.cons_append, List.append_assoc, List.cons_append, List.append_assoc, readValue,
      skipSpaces_cons (by decide)]
    dsimp only
    rw [if_neg (by decide), if_neg (by decide), if_pos rfl]
    rw [quote, List.cons_append] at hmembers ⊢
    rw [skipSpaces_cons (by decide)]
    dsimp only
    rw [if_neg (by decide), hmembers]
    rfl

theorem Reads.succ_items {fuel : Nat} (h : Reads fuel) (v : Json) (vs : List Json)
    (rest : List Char) (hfuel : 2 * ((text v).length + (itemsText vs).length) ≤ fuel + 1) :
    readItems (fuel + 1) (text v ++ (itemsText vs ++ rest)) = some (v :: vs, rest) := by
  obtain ⟨c, tail, htail, hc⟩ := itemsText_eq_cons vs
  have hpos : 0 < (itemsText vs).length := by
    rw [htail]
    exact Nat.succ_pos _
  have hv := h.value v (itemsText vs ++ rest) (by omega)
    (noNumberChar_append (itemsText_eq_cons vs) rest)
  rw [readItems, hv]
  simp only [Option.bind_eq_bind, Option.bind_some]
  cases vs with
  | nil =>
    rw [itemsText, List.cons_append, skipSpaces_cons (by decide)]
    rfl
  | cons w ws =>
    rw [itemsText] at hfuel ⊢
    simp only [List.length_cons, List.length_append] at hfuel
    have hws := h.items w ws rest (by omega)
    rw [List.cons_append, List.append_assoc, skipSpaces_cons (by decide)]
    dsimp only
    rw [if_neg (by decide), if_pos rfl, hws]
    rfl

theorem Reads.succ_members {fuel : Nat} (h : Reads fuel) (k : List Char) (v : Json)
    (ms : List (List Char × Json)) (rest : List Char)
    (hfuel : 2 * ((quote k).length + 1 + (text v).length + (membersText ms).length) ≤ fuel + 1) :
    readMembers (fuel + 1) (quote k ++ ':' :: (text v ++ (membersText ms ++ rest))) =
      some ((k, v) :: ms, rest) := by
  have hv := h.value v (membersText ms ++ rest) (by omega)
    (noNumberChar_append (membersText_eq_cons ms) rest)
  have hk := readString_quote k (':' :: (text v ++ (membersText ms ++ rest)))
  rw [readMembers, quote, List.cons_append, skipSpaces_cons (by decide)]
  dsimp only
  rw [if_neg (by decide), List.append_assoc, List.singleton_append, hk]
  simp only [Option.bind_eq_bind, Option.bind_some]
  rw [skipSpaces_cons (by decide)]
  dsimp only
  rw [if_neg (by decide), hv]
  simp only [Option.bind_some]
  cases ms with
  | nil =>
    rw [membersText, List.cons_append, skipSpaces_cons (by decide)]
    rfl
  | cons m ms =>
    obtain ⟨l, w⟩ := m
    rw [membersText] at hfuel ⊢
    simp only [List.length_cons, List.length_append] at hfuel
    have hms := h.members l w ms rest (by omega)
    rw [List.cons_append, List.append_assoc, List.cons_append, List.append_assoc,
      skipSpaces_cons (by decide)]
    dsimp only
    rw [if_neg (by decide), if_pos rfl, hms]
    rfl

theorem reads (fuel : Nat) : Reads fuel := by
  induction fuel with
  | zero =>
    constructor
    · intro v rest hfuel
      obtain ⟨c, tail, htext, -⟩ := text_eq_cons v
      rw [htext, List.length_cons] at hfuel
      omega
    · intro v vs rest hfuel
      obtain ⟨c, tail, htext, -⟩ := text_eq_cons v
      rw [htext, List.length_cons] at hfuel
      omega
    · intro k v ms rest hfuel
      omega
  -- one unit of fuel goes to the value itself, the rest to its parts, which are shorter
  | succ fuel ih =>
    constructor
    · intro v rest hfuel hrest
      cases v with
      | null => exact readValue_null fuel rest
      | bool b => exact readValue_bool fuel b rest
      | num x =>
        rw [text]
        exact readValue_num fuel x hrest
      | str s =>
        rw [text]
        exact readValue_str fuel s rest
      | arr items => exact ih.arr items rest hfuel
      | obj members => exact ih.obj members rest hfuel
    · exact ih.succ_items
    · exact ih.succ_members

/-- The text of a value reads as the value. -/
theorem read_text (v : Json) : read (text v) = some v := by
  have hv := (reads (2 * (text v).length + 1)).value v [] (by omega) noNumberChar_nil
  rw [List.append_nil] at hv
  unfold read
  rw [hv]
  rfl

/-- A line of text with its end. -/
theorem read_text_newline (v : Json) : read (text v ++ ['\n']) = some v := by
  have hlen : (text v ++ ['\n']).length = (text v).length + 1 := List.length_append
  have hv := (reads (2 * (text v ++ ['\n']).length + 1)).value v ['\n'] (by omega)
    (noNumberChar_cons (by decide))
  unfold read
  rw [hv]
  rfl

/-! ## Texts are one line -/

theorem not_mem_cons_append {c d : Char} {cs ds : List Char} (hd : c ≠ d) (hcs : c ∉ cs)
    (hds : c ∉ ds) : c ∉ d :: (cs ++ ds) := by
  simp [hd, hcs, hds]

mutual

theorem newline_not_mem_text : ∀ v, '\n' ∉ text v
  | .null => by
    rw [text]
    decide
  | .bool true => by
    rw [text]
    decide
  | .bool false => by
    rw [text]
    decide
  | .num x => by
    rw [text]
    exact newline_not_mem_lexeme x
  | .str s => by
    rw [text]
    exact newline_not_mem_quote s
  | .arr [] => by
    rw [text]
    decide
  | .arr (v :: vs) => by
    rw [text]
    exact not_mem_cons_append (by decide) (newline_not_mem_text v) (newline_not_mem_itemsText vs)
  | .obj [] => by
    rw [text]
    decide
  | .obj ((k, v) :: ms) => by
    rw [text]
    exact not_mem_cons_append (by decide) (newline_not_mem_quote k)
      (not_mem_cons_append (by decide) (newline_not_mem_text v) (newline_not_mem_membersText ms))

theorem newline_not_mem_itemsText : ∀ vs, '\n' ∉ itemsText vs
  | [] => by
    rw [itemsText]
    decide
  | v :: vs => by
    rw [itemsText]
    exact not_mem_cons_append (by decide) (newline_not_mem_text v) (newline_not_mem_itemsText vs)

theorem newline_not_mem_membersText : ∀ ms, '\n' ∉ membersText ms
  | [] => by
    rw [membersText]
    decide
  | (k, v) :: ms => by
    rw [membersText]
    exact not_mem_cons_append (by decide) (newline_not_mem_quote k)
      (not_mem_cons_append (by decide) (newline_not_mem_text v) (newline_not_mem_membersText ms))

end

/-! ## Objects -/

theorem membersText_eq_concat (ms : List (List Char × Json)) :
    ∃ front, membersText ms = front ++ ['}'] := by
  induction ms with
  | nil => exact ⟨[], by rw [membersText]; rfl⟩
  | cons m ms ih =>
    obtain ⟨k, v⟩ := m
    obtain ⟨front, hfront⟩ := ih
    refine ⟨',' :: (quote k ++ ':' :: (text v ++ front)), ?_⟩
    rw [membersText, hfront]
    simp

/-- The text of an object is between braces. -/
theorem text_obj_eq (ms : List (List Char × Json)) :
    ∃ middle, text (.obj ms) = '{' :: (middle ++ ['}']) := by
  cases ms with
  | nil => exact ⟨[], by rw [text]; rfl⟩
  | cons m ms =>
    obtain ⟨k, v⟩ := m
    obtain ⟨front, hfront⟩ := membersText_eq_concat ms
    refine ⟨quote k ++ ':' :: (text v ++ front), ?_⟩
    rw [text, hfront]
    simp

theorem length_le_membersText {k : List Char} {v : Json} {ms : List (List Char × Json)}
    (h : (k, v) ∈ ms) : (text v).length ≤ (membersText ms).length := by
  induction ms with
  | nil => cases h
  | cons m ms ih =>
    rw [membersText]
    simp only [List.length_cons, List.length_append]
    rcases List.mem_cons.mp h with rfl | h
    · dsimp only
      omega
    · have hrest := ih h
      omega

/-- The text of a member is part of the text of the object. -/
theorem length_le_text_obj {k : List Char} {v : Json} {ms : List (List Char × Json)}
    (h : (k, v) ∈ ms) : (text v).length ≤ (text (.obj ms)).length := by
  cases ms with
  | nil => cases h
  | cons m ms =>
    rw [text]
    simp only [List.length_cons, List.length_append]
    rcases List.mem_cons.mp h with rfl | h
    · dsimp only
      omega
    · have hrest := length_le_membersText h
      omega

end Json

end SmartSfp.Lib
