import Mathlib.Data.Bool.AllAny
import WorkQueue.Foundation.PercentEncoding
import WorkQueue.Foundation.Splitting

/-! # Requests to the web UI

A browser makes a path of a URL that is written relative to the page, and the server matches
the segments of the path with the patterns of its handlers. Only bare bytes stay where they
are (`Bare`). A handler gets decoded segments of the path (`decode_of_handled`).
-/

namespace Webui

/-- The bytes of a string. -/
def utf8 (text : String) : List UInt8 := text.toList.flatMap String.utf8EncodeChar

section Browser

/-- What is cut off at both ends of a URL. -/
def blank (byte : UInt8) : Bool := byte ≤ 32

/-- What is left out of a URL. -/
def dropped (byte : UInt8) : Bool := byte ∈ utf8 "\t\n\r"

/-- What ends the path of a URL. -/
def endsPath (byte : UInt8) : Bool := byte ∈ utf8 "?#"

/-- What separates the segments of a path. -/
def separates (byte : UInt8) : Bool := byte ∈ utf8 "/\\"

/-- What is percent-encoded in a path. -/
def escapedInPath (byte : UInt8) : Bool :=
  byte < 32 || 126 < byte || byte ∈ utf8 " \"#<>?^\x60\x7b\x7d"

/-- A segment that stays where it is. -/
def singleDot (segment : List UInt8) : Bool := segment ∈ [".", "%2e", "%2E"].map utf8

/-- A segment that leads back. -/
def doubleDot (segment : List UInt8) : Bool :=
  segment ∈ ["..", ".%2e", ".%2E", "%2e.", "%2E.", "%2e%2e", "%2e%2E", "%2E%2e", "%2E%2E"].map utf8

/-- Append segments to a path. Dots at the end leave an empty segment. -/
def resolve (path : List (List UInt8)) : List (List UInt8) → List (List UInt8)
  | [] => path
  | segment :: segments =>
      let next :=
        if doubleDot segment then path.dropLast
        else if singleDot segment then path
        else path ++ [PercentEncoding.encode escapedInPath segment]
      if segments = [] ∧ (doubleDot segment ∨ singleDot segment) then next ++ [[]]
      else resolve next segments

/-- The path that is requested for a URL relative to the root. -/
def fetchPath (url : List UInt8) : List (List UInt8) :=
  let trimmed := ((url.dropWhile blank).reverse.dropWhile blank).reverse
  let path := (trimmed.filter fun byte => !dropped byte).takeWhile fun byte => !endsPath byte
  resolve [] (path.splitOnP separates)

end Browser

section Server

/-- The methods of the requests. -/
inductive Method where
  | get
  | post
  deriving DecidableEq

/-- A segment of a pattern. The last one stands for a slash at the end. -/
inductive PatternSegment where
  | literal (text : String)
  | wildcard (name : String)
  | slash

/-- The handlers of the web UI. -/
inductive Handler where
  | ping
  | queues
  | workerPools
  | busyWorkers
  | retryJobs
  | scheduledJobs
  | deadJobs
  | deleteDeadJob
  | retryDeadJob
  | deleteAllDeadJobs
  | retryAllDeadJobs
  | indexPage
  | workJS
  deriving DecidableEq

/-- The patterns the handlers are registered for. -/
def newHandler : List (Method × List PatternSegment × Handler) :=
  [(.get, [.literal "ping"], .ping),
    (.get, [.literal "queues"], .queues),
    (.get, [.literal "worker_pools"], .workerPools),
    (.get, [.literal "busy_workers"], .busyWorkers),
    (.get, [.literal "retry_jobs"], .retryJobs),
    (.get, [.literal "scheduled_jobs"], .scheduledJobs),
    (.get, [.literal "dead_jobs"], .deadJobs),
    (.post, [.literal "delete_dead_job", .wildcard "died_at", .wildcard "job_id"], .deleteDeadJob),
    (.post, [.literal "retry_dead_job", .wildcard "died_at", .wildcard "job_id"], .retryDeadJob),
    (.post, [.literal "delete_all_dead_jobs"], .deleteAllDeadJobs),
    (.post, [.literal "retry_all_dead_jobs"], .retryAllDeadJobs),
    (.get, [.slash], .indexPage),
    (.get, [.literal "work.js"], .workJS)]

/-- The values of the wildcards if a pattern matches. -/
abbrev PathValues := List (String × List UInt8)

/-- Match the segments of a path. A wildcard stands for one segment that is not empty. -/
def matchSegments : List PatternSegment → List (List UInt8) → Option PathValues
  | [], [] => some []
  | .literal text :: pattern, segment :: segments =>
      if segment = utf8 text then matchSegments pattern segments else none
  | .wildcard name :: pattern, segment :: segments =>
      if segment = [] then none
      else (matchSegments pattern segments).map ((name, segment) :: ·)
  | .slash :: pattern, segment :: segments =>
      if segment = [] then matchSegments pattern segments else none
  | _, _ => none

/-- What becomes of a request. -/
inductive Response where
  | badRequest
  | redirected
  | notFound
  | handled (handler : Handler) (values : PathValues)
  deriving DecidableEq

/-- Serve a request. A path that cannot be decoded is refused, one with an empty segment is
redirected, and the segments are matched after they have been decoded. -/
def serve (method : Method) (path : List (List UInt8)) : Response :=
  match path.mapM PercentEncoding.decode with
  | none => .badRequest
  | some segments =>
      if [] ∈ path.dropLast then .redirected
      else
        match newHandler.findSome? fun entry =>
          if entry.1 = method then (matchSegments entry.2.1 segments).map (entry.2.2, ·)
          else none with
        | some (handler, values) => .handled handler values
        | none => .notFound

end Server

/-- The characters that mean something in the URL of a button. -/
def reserved : List Char := ['/', '\\', '?', '#', '%', '\t', '\n', '\r']

section Bytes

theorem utf8_append (first second : String) :
    utf8 (first ++ second) = utf8 first ++ utf8 second := by
  rw [utf8, String.toList_append, List.flatMap_append]
  rfl

theorem fromUTF8?_utf8 (text : String) : String.fromUTF8? (utf8 text).toByteArray = some text := by
  have same : (utf8 text).toByteArray = text.toByteArray := String.utf8Encode_toList
  rw [same, String.fromUTF8?, dif_pos text.isValidUTF8]
  rfl

theorem utf8_injective {first second : String} (same : utf8 first = utf8 second) :
    first = second := by
  have read := fromUTF8?_utf8 first
  rw [same, fromUTF8?_utf8] at read
  exact (Option.some.inj read).symm

theorem utf8EncodeChar_ascii {char : Char} (ascii : char.toNat < 128) :
    String.utf8EncodeChar char = [UInt8.ofNat char.toNat] := by
  have small : char.val.toNat ≤ 127 := Nat.le_of_lt_succ ascii
  simp only [String.utf8EncodeChar, small, ↓reduceIte]
  rfl

theorem toNat_ofNat_ascii {char : Char} (ascii : char.toNat < 128) :
    (UInt8.ofNat char.toNat).toNat = char.toNat := by
  rw [UInt8.toNat_ofNat']
  omega

/-- A byte below 128 stands for its character only. -/
theorem eq_of_mem_utf8EncodeChar {byte : UInt8} {char : Char} (ascii : byte.toNat < 128)
    (member : byte ∈ String.utf8EncodeChar char) : char.toNat = byte.toNat := by
  by_cases small : char.toNat < 128
  · rw [utf8EncodeChar_ascii small] at member
    rw [List.mem_singleton.mp member, toNat_ofNat_ascii small]
  · -- every byte of a longer encoding has its highest bit set
    have long : ¬ char.val.toNat ≤ 127 := fun bound => small (Nat.lt_succ_of_le bound)
    simp only [String.utf8EncodeChar, long, ↓reduceIte] at member
    have absurd : 128 ≤ byte.toNat := by
      split at member
      · simp only [List.mem_cons, List.not_mem_nil, or_false] at member
        obtain rfl | rfl := member <;> rw [UInt8.toNat_ofNat'] <;> omega
      · split at member
        · simp only [List.mem_cons, List.not_mem_nil, or_false] at member
          obtain rfl | rfl | rfl := member <;> rw [UInt8.toNat_ofNat'] <;> omega
        · simp only [List.mem_cons, List.not_mem_nil, or_false] at member
          obtain rfl | rfl | rfl | rfl := member <;> rw [UInt8.toNat_ofNat'] <;> omega
    omega

/-- A character below 128 is in a string if its byte is. -/
theorem mem_utf8_iff {char : Char} (ascii : char.toNat < 128) (text : String) :
    UInt8.ofNat char.toNat ∈ utf8 text ↔ char ∈ text.toList := by
  unfold utf8
  rw [List.mem_flatMap]
  have bytes := toNat_ofNat_ascii ascii
  constructor
  · rintro ⟨other, inside, member⟩
    have same := eq_of_mem_utf8EncodeChar (by omega) member
    rw [bytes] at same
    have equal : other = char := Char.ext (UInt32.toNat_inj.mp same)
    exact equal ▸ inside
  · intro inside
    refine ⟨char, inside, ?_⟩
    rw [utf8EncodeChar_ascii ascii]
    exact List.mem_singleton.mpr rfl

end Bytes

section Bare

/-- A byte that means nothing in a URL. -/
def Bare (byte : UInt8) : Prop :=
  dropped byte = false ∧ endsPath byte = false ∧ separates byte = false ∧
    byte ≠ PercentEncoding.mark

theorem bare_iff (byte : UInt8) :
    Bare byte ↔ ∀ char ∈ reserved, byte ≠ UInt8.ofNat char.toNat := by
  have first : utf8 "\t\n\r" = [9, 10, 13] := by decide
  have second : utf8 "?#" = [63, 35] := by decide
  have third : utf8 "/\\" = [47, 92] := by decide
  simp only [Bare, dropped, endsPath, separates, PercentEncoding.mark, first, second, third,
    reserved, List.mem_cons, List.not_mem_nil, or_false, decide_eq_false_iff_not, forall_eq_or_imp,
    forall_eq, not_or]
  constructor
  · rintro ⟨⟨tab, newline, return'⟩, ⟨query, fragment⟩, ⟨slash, backslash⟩, percent⟩
    exact ⟨slash, backslash, query, fragment, percent, tab, newline, return'⟩
  · rintro ⟨slash, backslash, query, fragment, percent, tab, newline, return'⟩
    exact ⟨⟨tab, newline, return'⟩, ⟨query, fragment⟩, ⟨slash, backslash⟩, percent⟩

theorem ascii_of_reserved : ∀ char ∈ reserved, char.toNat < 128 :=
  List.all_iff_forall_prop.mp (by decide)

/-- The bytes of a string are bare if no character is reserved. -/
theorem bare_utf8_iff (text : String) :
    (∀ byte ∈ utf8 text, Bare byte) ↔ ∀ char ∈ text.toList, char ∉ reserved := by
  constructor
  · intro bare char inside special
    have member := (mem_utf8_iff (ascii_of_reserved char special) text).mpr inside
    exact (bare_iff _).mp (bare _ member) char special rfl
  · intro free byte member
    rw [bare_iff]
    rintro char special rfl
    exact free char ((mem_utf8_iff (ascii_of_reserved char special) text).mp member) special

end Bare

section Paths

variable {bytes front rest : List UInt8}

/-- The part of bytes that stays in a path. -/
def pathPart (bytes : List UInt8) : List UInt8 :=
  (bytes.filter fun byte => !dropped byte).takeWhile fun byte => !endsPath byte

theorem pathPart_append (bare : ∀ byte ∈ front, Bare byte) :
    pathPart (front ++ rest) = front ++ pathPart rest := by
  have kept : (front.filter fun byte => !dropped byte) = front := by
    refine List.filter_eq_self.mpr fun byte member => ?_
    rw [(bare byte member).1, Bool.not_false]
  rw [pathPart, List.filter_append, kept]
  refine List.takeWhile_append_of_pos fun byte member => ?_
  rw [(bare byte member).2.1, Bool.not_false]

theorem pathPart_cons {byte : UInt8} (kept : dropped byte = false)
    (inside : endsPath byte = false) : pathPart (byte :: rest) = byte :: pathPart rest := by
  rw [pathPart, List.filter_cons_of_pos (by rw [kept]; rfl),
    List.takeWhile_cons_of_pos (by rw [inside]; rfl)]
  rfl

theorem pathPart_of_bare (bare : ∀ byte ∈ bytes, Bare byte) : pathPart bytes = bytes := by
  have whole : pathPart (bytes ++ []) = _ := pathPart_append bare
  rw [List.append_nil] at whole
  exact whole.trans (List.append_nil _)

theorem pathPart_sublist (bytes : List UInt8) : (pathPart bytes).Sublist bytes :=
  (List.takeWhile_sublist _).trans List.filter_sublist

/-- Only bare bytes and percent signs are in a segment of a path. -/
theorem bare_of_mem_segment {segment : List UInt8}
    (member : segment ∈ (pathPart bytes).splitOnP separates) {byte : UInt8}
    (inside : byte ∈ segment) : Bare byte ∨ byte = PercentEncoding.mark := by
  have within := (Splitting.sublist_of_mem member).subset inside
  have unended := List.all_eq_true.mp List.all_takeWhile byte within
  have undropped := (List.mem_filter.mp ((List.takeWhile_sublist _).subset within)).2
  have unseparated := Splitting.not_separator_of_mem member byte inside
  by_cases percent : byte = PercentEncoding.mark
  · exact .inr percent
  · refine .inl ⟨?_, ?_, unseparated, percent⟩
    · simpa using undropped
    · simpa using unended

theorem splitOnP_append (bare : ∀ byte ∈ front, Bare byte) :
    (front ++ 47 :: rest).splitOnP separates = front :: rest.splitOnP separates := by
  rw [List.splitOnP_append_cons _ _ (by decide), List.splitOnP_eq_singleton]
  · rfl
  · exact fun byte member => (bare byte member).2.2.1

/-- Nothing is cut off if neither end is blank. -/
theorem trimmed_eq {first last : UInt8} (head : bytes.head? = some first)
    (foot : bytes.getLast? = some last) (visible : blank first = false)
    (visible' : blank last = false) :
    ((bytes.dropWhile blank).reverse.dropWhile blank).reverse = bytes := by
  obtain ⟨rest, rfl⟩ := List.head?_eq_some_iff.mp head
  rw [List.dropWhile_cons_of_neg (by rw [visible]; exact Bool.false_ne_true)]
  obtain ⟨front, split⟩ := List.getLast?_eq_some_iff.mp foot
  rw [split, List.reverse_append, List.reverse_singleton, List.singleton_append,
    List.dropWhile_cons_of_neg (by rw [visible']; exact Bool.false_ne_true), List.reverse_cons,
    List.reverse_reverse]

end Paths

section Resolving

/-- A segment that begins with another byte than a dot or a percent sign is no dot segment. -/
theorem not_dot {byte : UInt8} (undotted : byte ≠ 46) (unescaped : byte ≠ 37) (rest : List UInt8) :
    singleDot (byte :: rest) = false ∧ doubleDot (byte :: rest) = false := by
  have singles : [".", "%2e", "%2E"].map utf8 = [[46], [37, 50, 101], [37, 50, 69]] := by decide
  have doubles : ["..", ".%2e", ".%2E", "%2e.", "%2E.", "%2e%2e", "%2e%2E", "%2E%2e",
      "%2E%2E"].map utf8 =
    [[46, 46], [46, 37, 50, 101], [46, 37, 50, 69], [37, 50, 101, 46], [37, 50, 69, 46],
      [37, 50, 101, 37, 50, 101], [37, 50, 101, 37, 50, 69], [37, 50, 69, 37, 50, 101],
      [37, 50, 69, 37, 50, 69]] := by decide
  constructor
  · rw [singleDot, singles]
    simp [undotted, unescaped]
  · rw [doubleDot, doubles]
    simp [undotted, unescaped]

theorem resolve_cons {byte : UInt8} (undotted : byte ≠ 46) (unescaped : byte ≠ 37)
    (rest : List UInt8) (path segments : List (List UInt8)) :
    resolve path ((byte :: rest) :: segments) =
      resolve (path ++ [PercentEncoding.encode escapedInPath (byte :: rest)]) segments := by
  obtain ⟨single, double⟩ := not_dot undotted unescaped rest
  rw [resolve]
  simp [single, double]

/-- A segment of a path was there before, or is empty, or is an encoded segment. -/
theorem forall_resolve {holds : List UInt8 → Prop} {path segments : List (List UInt8)}
    (before : ∀ segment ∈ path, holds segment) (empty : holds [])
    (encoded : ∀ segment ∈ segments, holds (PercentEncoding.encode escapedInPath segment)) :
    ∀ segment ∈ resolve path segments, holds segment := by
  induction segments generalizing path with
  | nil => exact before
  | cons segment segments ih =>
      obtain ⟨own, others⟩ := List.forall_mem_cons.mp encoded
      have longer {path : List (List UInt8)} {last : List UInt8}
          (before : ∀ segment ∈ path, holds segment) (new : holds last) :
          ∀ segment ∈ path ++ [last], holds segment := by
        intro segment member
        obtain old | added := List.mem_append.mp member
        · exact before segment old
        · exact List.mem_singleton.mp added ▸ new
      have next : ∀ other ∈ (if doubleDot segment then path.dropLast
          else if singleDot segment then path
          else path ++ [PercentEncoding.encode escapedInPath segment]), holds other := by
        split
        · exact fun other member => before other (List.dropLast_subset _ member)
        · split
          · exact before
          · exact longer before own
      rw [resolve]
      split
      · exact longer next empty
      · exact ih next others

theorem encode_ne_nil {bytes : List UInt8} (nonempty : bytes ≠ []) :
    PercentEncoding.encode escapedInPath bytes ≠ [] := by
  obtain ⟨byte, bytes, rfl⟩ := List.exists_cons_of_ne_nil nonempty
  cases escaped : escapedInPath byte with
  | true =>
      rw [PercentEncoding.encode_cons_of_escapes escaped]
      exact List.cons_ne_nil _ _
  | false =>
      rw [PercentEncoding.encode_cons_of_kept escaped]
      exact List.cons_ne_nil _ _

end Resolving

section Serving

variable {path segments : List (List UInt8)} {values : PathValues}

theorem mem_of_matchSegments {pattern : List PatternSegment}
    (matched : matchSegments pattern segments = some values) :
    ∀ value ∈ values, value.2 ∈ segments := by
  induction pattern generalizing segments values with
  | nil =>
      cases segments with
      | nil => cases matched; nofun
      | cons segment segments => cases matched
  | cons first pattern ih =>
      cases segments with
      | nil => cases first <;> cases matched
      | cons segment segments =>
          cases first with
          | literal text | slash =>
              rw [matchSegments] at matched
              split at matched
              · exact fun value member => List.mem_cons_of_mem _ (ih matched value member)
              · cases matched
          | wildcard name =>
              rw [matchSegments] at matched
              split at matched
              · cases matched
              · obtain ⟨others, rest, rfl⟩ := Option.map_eq_some_iff.mp matched
                refine List.forall_mem_cons.mpr ⟨List.mem_cons_self, ?_⟩
                exact fun value member => List.mem_cons_of_mem _ (ih rest value member)

theorem mem_of_mapM_decode (decoded : path.mapM PercentEncoding.decode = some segments) :
    ∀ value ∈ segments, ∃ segment ∈ path, PercentEncoding.decode segment = some value := by
  induction path generalizing segments with
  | nil => cases decoded; nofun
  | cons segment path ih =>
      rw [List.mapM_cons] at decoded
      obtain ⟨first, own, decoded⟩ := Option.bind_eq_some_iff.mp decoded
      obtain ⟨others, rest, decoded⟩ := Option.bind_eq_some_iff.mp decoded
      cases decoded
      refine List.forall_mem_cons.mpr ⟨⟨segment, List.mem_cons_self, own⟩, ?_⟩
      intro value member
      obtain ⟨source, inside, read⟩ := ih rest value member
      exact ⟨source, List.mem_cons_of_mem _ inside, read⟩

/-- The values a handler gets are decoded segments of the path. -/
theorem decode_of_handled {method : Method} {handler : Handler}
    (served : serve method path = .handled handler values) :
    ∀ value ∈ values, ∃ segment ∈ path, PercentEncoding.decode segment = some value.2 := by
  unfold serve at served
  split at served
  · cases served
  · next segments decoded =>
      split at served
      · cases served
      · split at served
        · next found =>
            cases served
            obtain ⟨entry, -, matched⟩ := List.exists_of_findSome?_eq_some found
            split at matched
            · obtain ⟨bound, matched, same⟩ := Option.map_eq_some_iff.mp matched
              cases same
              intro value member
              exact mem_of_mapM_decode decoded _ (mem_of_matchSegments matched value member)
            · cases matched
        · cases served

end Serving

end Webui
