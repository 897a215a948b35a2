import Mathlib.Data.Nat.Log
import Mathlib.Tactic.IntervalCases
import WorkQueue.Json.Tree

/-! # The text of a document

The text written for a document: fields in the order of the tree, no spaces, and
strings escaped so that quotes, backslashes, control characters and the
characters special to HTML never appear bare. A number that is not a inert
integer is written with an exponent.

Reading the text of an object from outside any string never returns to the
outermost level before its end (`Json.scan_obj`). Hence no text of an object ends
with a colon followed by the whole text of another one, even when the colon lies
inside a string of the first (`Json.text_obj_ne_append`).
-/

/-- Decimal digits of an integer with its sign. -/
def intDigits (value : ℤ) : List Char :=
  if value < 0 then '-' :: Nat.toDigits 10 value.natAbs else Nat.toDigits 10 value.natAbs

/-- A digit string without the zeros at its end. -/
def stripZeros (digits : List Char) : List Char := (digits.reverse.dropWhile (· = '0')).reverse

/-- The text of a fraction with a finite decimal expansion: positional, or in
scientific notation when it is below `10 ^ (-6)` or at least `10 ^ 21`. The binary
digits of the denominator bound the number of decimal places. -/
def realDigits (value : ℚ) : List Char :=
  let places := Nat.log 2 value.den
  let scaled := value.num.natAbs * 10 ^ places / value.den
  let digits := Nat.toDigits 10 scaled
  let sign : List Char := if value < 0 then ['-'] else []
  if |value| < 1 / 10 ^ 6 ∨ 10 ^ 21 ≤ |value| then
    let exponent : ℤ := digits.length - 1 - places
    let fraction := stripZeros digits.tail
    sign ++ digits.take 1 ++ (if fraction = [] then [] else '.' :: fraction) ++
      'e' :: (if 0 ≤ exponent then '+' :: intDigits exponent else intDigits exponent)
  else
    let whole := Nat.toDigits 10 (scaled / 10 ^ places)
    let fraction := (Nat.toDigits 10 (10 ^ places + scaled % 10 ^ places)).tail
    sign ++ whole ++ '.' :: stripZeros fraction

/-- The text of a number. -/
def JsonNumber.text : JsonNumber → List Char
  | .int value => intDigits value
  | .real value => realDigits value

namespace Json

/-- Four hexadecimal digits of a character code. -/
def hexDigits (code : ℕ) : List Char :=
  [code / 4096 % 16, code / 256 % 16, code / 16 % 16, code % 16].map Nat.digitChar

/-- A character inside a string. -/
def escape (char : Char) : List Char :=
  if char = '"' then ['\\', '"']
  else if char = '\\' then ['\\', '\\']
  else if char = '\n' then ['\\', 'n']
  else if char = '\r' then ['\\', 'r']
  else if char = '\t' then ['\\', 't']
  else if char = '\x08' then ['\\', 'b']
  else if char = '\x0c' then ['\\', 'f']
  else if char.toNat < 32 ∨ char = '<' ∨ char = '>' ∨ char = '&' ∨ char.toNat = 8232 ∨
      char.toNat = 8233 then '\\' :: 'u' :: hexDigits char.toNat
  else [char]

/-- A quoted string. -/
def quote (string : String) : List Char :=
  '"' :: (string.toList.flatMap escape ++ ['"'])

/-- Join texts with commas. -/
def joinComma : List (List Char) → List Char
  | [] => []
  | [last] => last
  | first :: second :: rest => first ++ ',' :: joinComma (second :: rest)

/-- The text of a document. -/
def text : Json → List Char := fold
  { null := "null".toList
    bool := fun value => if value then "true".toList else "false".toList
    num := JsonNumber.text
    str := quote
    arr := fun items => '[' :: (joinComma items ++ [']'])
    obj := fun fields =>
      '{' :: (joinComma (fields.map fun field => quote field.1 ++ ':' :: field.2) ++ ['}']) }

theorem text_arr (items : List Json) :
    (Json.arr items).text = '[' :: (joinComma (items.map text) ++ [']']) := by
  rw [text, fold_arr]

theorem text_obj (fields : List (String × Json)) :
    (Json.obj fields).text =
      '{' :: (joinComma (fields.map fun field => quote field.1 ++ ':' :: field.2.text) ++
        ['}']) := by
  rw [text, fold_obj]
  simp only [List.map_map]
  rfl

/-- Where a reader of a document stands: before it, outside or inside a string
with the number of open brackets below the outermost, after an escape, past the
outermost closing bracket, or at a character that no document has there. -/
inductive Scan where
  | start
  | outside (depth : ℕ)
  | inString (depth : ℕ)
  | escaped (depth : ℕ)
  | done
  | stuck
  deriving DecidableEq

/-- Read one character. -/
def Scan.read : Scan → Char → Scan
  | .start, char => if char = '{' then .outside 0 else .stuck
  | .outside depth, char =>
      if char = '"' then .inString depth
      else if char = '\\' then .stuck
      else if char = '{' ∨ char = '[' then .outside (depth + 1)
      else if char = '}' ∨ char = ']' then
        match depth with
        | 0 => .done
        | depth + 1 => .outside depth
      else .outside depth
  | .inString depth, char =>
      if char = '"' then .outside depth
      else if char = '\\' then .escaped depth
      else .inString depth
  | .escaped depth, _ => .inString depth
  | .done, _ => .stuck
  | .stuck, _ => .stuck

/-- Read a text. -/
def scan (from_ : Scan) (chars : List Char) : Scan := chars.foldl Scan.read from_

@[simp] theorem scan_nil (from_ : Scan) : scan from_ [] = from_ := rfl

@[simp] theorem scan_cons (from_ : Scan) (char : Char) (chars : List Char) :
    scan from_ (char :: chars) = scan (from_.read char) chars := rfl

theorem scan_append (from_ : Scan) (first second : List Char) :
    scan from_ (first ++ second) = scan (scan from_ first) second := List.foldl_append ..

theorem scan_stuck (chars : List Char) : scan .stuck chars = .stuck := by
  induction chars with
  | nil => rfl
  | cons char chars ih => exact ih

/-- Characters that neither open nor close anything. -/
def Inert (char : Char) : Prop :=
  char ≠ '"' ∧ char ≠ '\\' ∧ char ≠ '{' ∧ char ≠ '[' ∧ char ≠ '}' ∧ char ≠ ']'

instance : DecidablePred Inert := fun char =>
  inferInstanceAs (Decidable (char ≠ '"' ∧ char ≠ '\\' ∧ char ≠ '{' ∧ char ≠ '[' ∧ char ≠ '}' ∧
    char ≠ ']'))

theorem Inert.read_outside {char : Char} (inert : Inert char) (depth : ℕ) :
    (Scan.outside depth).read char = .outside depth := by
  obtain ⟨quote, backslash, brace, bracket, closeBrace, closeBracket⟩ := inert
  simp only [Scan.read, quote, backslash, brace, bracket, closeBrace, closeBracket, or_self,
    ↓reduceIte]

theorem scan_inert {chars : List Char} (inert : ∀ char ∈ chars, Inert char) (depth : ℕ) :
    scan (.outside depth) chars = .outside depth := by
  induction chars with
  | nil => rfl
  | cons char chars ih =>
      rw [scan_cons, (inert char List.mem_cons_self).read_outside]
      exact ih fun other member => inert other (List.mem_cons_of_mem _ member)

theorem inert_of_isDigit {char : Char} (digit : char.isDigit = true) : Inert char := by
  refine ⟨?_, ?_, ?_, ?_, ?_, ?_⟩ <;> rintro rfl <;> exact absurd digit (by decide)

theorem inert_digits (value : ℕ) : ∀ char ∈ Nat.toDigits 10 value, Inert char :=
  fun _ member => inert_of_isDigit (Nat.isDigit_of_mem_toDigits (by decide) (by decide) member)

theorem inert_intDigits (value : ℤ) : ∀ char ∈ intDigits value, Inert char := by
  intro char member
  unfold intDigits at member
  split at member
  · rcases List.mem_cons.mp member with rfl | digit
    · decide
    · exact inert_digits _ char digit
  · exact inert_digits _ char member

theorem inert_stripZeros {digits : List Char} (inert : ∀ char ∈ digits, Inert char) :
    ∀ char ∈ stripZeros digits, Inert char := by
  intro char member
  rw [stripZeros, List.mem_reverse] at member
  exact inert char (List.mem_reverse.mp ((List.dropWhile_sublist _).subset member))

theorem inert_realDigits (value : ℚ) : ∀ char ∈ realDigits value, Inert char := by
  have sign : ∀ char ∈ (if value < 0 then ['-'] else [] : List Char), Inert char := by
    intro char member
    split at member
    · rw [List.mem_singleton.mp member]
      decide
    · exact (List.not_mem_nil member).elim
  intro char member
  simp only [realDigits] at member
  split at member
  · rcases List.mem_append.mp member with mantissa | exponent
    · rcases List.mem_append.mp mantissa with leading | fraction
      · rcases List.mem_append.mp leading with signed | first
        · exact sign char signed
        · exact inert_digits _ char (List.mem_of_mem_take first)
      · split at fraction
        · exact (List.not_mem_nil fraction).elim
        · rcases List.mem_cons.mp fraction with rfl | rest
          · decide
          · exact inert_stripZeros (fun digit inside =>
              inert_digits _ digit (List.mem_of_mem_tail inside)) char rest
    · rcases List.mem_cons.mp exponent with rfl | rest
      · decide
      · split at rest
        · rcases List.mem_cons.mp rest with rfl | digit
          · decide
          · exact inert_intDigits _ char digit
        · exact inert_intDigits _ char rest
  · rcases List.mem_append.mp member with leading | fraction
    · rcases List.mem_append.mp leading with signed | whole
      · exact sign char signed
      · exact inert_digits _ char whole
    · rcases List.mem_cons.mp fraction with rfl | rest
      · decide
      · exact inert_stripZeros (fun digit inside =>
          inert_digits _ digit (List.mem_of_mem_tail inside)) char rest

theorem inert_number (number : JsonNumber) : ∀ char ∈ number.text, Inert char := by
  cases number with
  | int value => exact inert_intDigits value
  | real value => exact inert_realDigits value

theorem scan_hexDigits (code depth : ℕ) :
    scan (.inString depth) (hexDigits code) = .inString depth := by
  have step : ∀ digit < 16, (Scan.inString depth).read (Nat.digitChar digit) =
      .inString depth := by
    intro digit below
    have quote : Nat.digitChar digit ≠ '"' := by
      interval_cases digit <;> decide
    have backslash : Nat.digitChar digit ≠ '\\' := by
      interval_cases digit <;> decide
    simp only [Scan.read, quote, backslash, ↓reduceIte]
  simp only [hexDigits, List.map_cons, List.map_nil, scan_cons, scan_nil,
    step _ (Nat.mod_lt _ (by decide))]

/-- An escaped character is read without leaving its string. -/
theorem scan_escape (char : Char) (depth : ℕ) :
    scan (.inString depth) (escape char) = .inString depth := by
  unfold escape
  split_ifs with quote backslash
  case neg => simp only [scan_cons, scan_nil, Scan.read, quote, backslash, ↓reduceIte]
  all_goals first
    | rfl
    | exact scan_hexDigits _ _

theorem scan_quote (string : String) (depth : ℕ) :
    scan (.outside depth) (quote string) = .outside depth := by
  have inside : ∀ chars : List Char,
      scan (.inString depth) (chars.flatMap escape) = .inString depth := by
    intro chars
    induction chars with
    | nil => rfl
    | cons char chars ih => rw [List.flatMap_cons, scan_append, scan_escape, ih]
  rw [quote, scan_cons, scan_append]
  change scan (scan (.inString depth) _) ['"'] = _
  rw [inside]
  rfl

theorem scan_joinComma {texts : List (List Char)} {depth : ℕ}
    (each : ∀ chars ∈ texts, scan (.outside depth) chars = .outside depth) :
    scan (.outside depth) (joinComma texts) = .outside depth := by
  induction texts with
  | nil => rfl
  | cons first rest ih =>
      have later := ih fun chars member => each chars (List.mem_cons_of_mem _ member)
      cases rest with
      | nil => exact each first List.mem_cons_self
      | cons second rest =>
          rw [joinComma, scan_append, each first List.mem_cons_self, scan_cons]
          exact later

/-- The text of a document is read without leaving the brackets around it. -/
theorem scan_text (json : Json) (depth : ℕ) :
    scan (.outside depth) json.text = .outside depth := by
  induction json using documentInduction generalizing depth with
  | null => rfl
  | bool value => cases value <;> rfl
  | num value => exact scan_inert (inert_number value) depth
  | str value => exact scan_quote value depth
  | arr items ih =>
      rw [text_arr, scan_cons, scan_append]
      change scan (scan (.outside (depth + 1)) _) [']'] = _
      rw [scan_joinComma fun chars member => ?_]
      · rfl
      · obtain ⟨item, inside, rfl⟩ := List.mem_map.mp member
        exact ih item inside (depth + 1)
  | obj fields ih =>
      rw [text_obj, scan_cons, scan_append]
      change scan (scan (.outside (depth + 1)) _) ['}'] = _
      rw [scan_joinComma fun chars member => ?_]
      · rfl
      · obtain ⟨field, inside, rfl⟩ := List.mem_map.mp member
        rw [scan_append, scan_quote, scan_cons]
        exact ih field inside (depth + 1)

/-- An object is read from its first to its last character and no further. -/
theorem scan_obj (fields : List (String × Json)) : scan .start (Json.obj fields).text = .done := by
  rw [text_obj, scan_cons, scan_append]
  change scan (scan (.outside 0) _) ['}'] = _
  rw [scan_joinComma fun chars member => ?_]
  · rfl
  · obtain ⟨field, inside, rfl⟩ := List.mem_map.mp member
    rw [scan_append, scan_quote, scan_cons]
    exact scan_text field.2 0

/-- Two readers of one text, the first outside the strings where the second is
inside and conversely. Once the second meets a backslash between strings or reads
past the outermost bracket it is stuck. -/
def Scan.Flipped : Scan → Scan → Prop
  | .start, second => second = .stuck ∨ ∃ depth, second = .inString depth
  | .outside _, second => second = .stuck ∨ ∃ depth, second = .inString depth
  | .inString _, second => second = .stuck ∨ second = .done ∨ ∃ depth, second = .outside depth
  | .escaped _, second => second = .stuck
  | .done, second => second = .stuck ∨ ∃ depth, second = .inString depth
  | .stuck, _ => True

theorem Scan.Flipped.read_outside {second : Scan} {depth : ℕ} (char : Char)
    (flipped : Flipped (.outside depth) second) :
    Flipped ((Scan.outside depth).read char) (second.read char) := by
  by_cases quote : char = '"'
  · subst quote
    rcases flipped with rfl | ⟨other, rfl⟩
    · exact .inl rfl
    · exact .inr (.inr ⟨other, rfl⟩)
  by_cases backslash : char = '\\'
  · subst backslash
    exact trivial
  have stays : second.read char = second := by
    rcases flipped with rfl | ⟨other, rfl⟩
    · rfl
    · simp only [Scan.read, quote, backslash, ↓reduceIte]
  rw [stays]
  simp only [Scan.read, quote, backslash, ↓reduceIte]
  split_ifs
  · exact flipped
  · cases depth with
    | zero | succ depth => exact flipped
  · exact flipped

theorem Scan.Flipped.read_inString {second : Scan} {depth : ℕ} (char : Char)
    (flipped : Flipped (.inString depth) second) :
    Flipped ((Scan.inString depth).read char) (second.read char) := by
  by_cases quote : char = '"'
  · subst quote
    rcases flipped with rfl | rfl | ⟨other, rfl⟩
    · exact .inl rfl
    · exact .inl rfl
    · exact .inr ⟨other, rfl⟩
  by_cases backslash : char = '\\'
  · subst backslash
    rcases flipped with rfl | rfl | ⟨other, rfl⟩ <;> rfl
  have stays : (Scan.inString depth).read char = .inString depth := by
    simp only [Scan.read, quote, backslash, ↓reduceIte]
  rw [stays]
  rcases flipped with rfl | rfl | ⟨other, rfl⟩
  · exact .inl rfl
  · exact .inl rfl
  · simp only [Scan.read, quote, backslash, ↓reduceIte]
    split_ifs
    · exact .inr (.inr ⟨_, rfl⟩)
    · cases other with
      | zero => exact .inr (.inl rfl)
      | succ other => exact .inr (.inr ⟨other, rfl⟩)
    · exact .inr (.inr ⟨_, rfl⟩)

/-- Reading keeps two readers flipped. -/
theorem Scan.Flipped.read {first second : Scan} (flipped : Flipped first second) (char : Char) :
    Flipped (first.read char) (second.read char) := by
  cases first with
  | start =>
      by_cases brace : char = '{'
      · subst brace
        rcases flipped with rfl | ⟨other, rfl⟩
        · exact .inl rfl
        · exact .inr ⟨other, rfl⟩
      · simp only [Scan.read, brace, ↓reduceIte]
        exact trivial
  | outside depth => exact Scan.Flipped.read_outside char flipped
  | inString depth => exact Scan.Flipped.read_inString char flipped
  | escaped depth =>
      cases flipped
      exact .inl rfl
  | done | stuck => exact trivial

theorem Scan.Flipped.scan {first second : Scan} (flipped : Flipped first second)
    (chars : List Char) : Flipped (Json.scan first chars) (Json.scan second chars) := by
  induction chars generalizing first second with
  | nil => exact flipped
  | cons char chars ih => exact ih (flipped.read char)

/-- The text of an object read from anywhere but its own beginning never reaches
the end of a document. -/
theorem scan_obj_ne_done {reader : Scan} (fields : List (String × Json))
    (elsewhere : reader = .stuck ∨ (∃ depth, reader = .outside depth) ∨
      ∃ depth, reader = .inString depth) :
    scan reader (Json.obj fields).text ≠ .done := by
  intro finished
  rcases elsewhere with rfl | ⟨depth, rfl⟩ | ⟨depth, rfl⟩
  · rw [scan_stuck] at finished
    exact Scan.noConfusion finished
  · rw [scan_text] at finished
    exact Scan.noConfusion finished
  · have flipped : Scan.Flipped .start (.inString depth) := .inr ⟨depth, rfl⟩
    have ends := flipped.scan (Json.obj fields).text
    rw [scan_obj, finished] at ends
    rcases ends with stuck | ⟨_, inside⟩
    · exact Scan.noConfusion stuck
    · exact Scan.noConfusion inside

/-- No text of an object ends with a colon and the text of an object. -/
theorem text_obj_ne_append (fields others : List (String × Json)) (front : List Char) :
    (Json.obj fields).text ≠ front ++ ':' :: (Json.obj others).text := by
  intro same
  have ends := scan_obj fields
  rw [same, scan_append, scan_cons] at ends
  refine scan_obj_ne_done others ?_ ends
  cases scan .start front with
  | start | done | stuck => exact .inl rfl
  | outside depth => exact .inr (.inl ⟨depth, rfl⟩)
  | inString depth | escaped depth => exact .inr (.inr ⟨depth, rfl⟩)

end Json
