import WorkQueue.Client.Observations
import WorkQueue.Payload.Float
import WorkQueue.Periodic.Enqueuer
import WorkQueue.Webui.Requests

/-! # Addressing a dead job from the web UI

The page for the dead jobs puts the time of death and the identifier of a job into a URL as
they are, a browser makes a path of it, and the server takes the two values from the segments
of the path. Identifiers are random, or those of periodic jobs, which have the name of the job
and its cron spec in them.

The values arrive as they were sent if and only if the name and the spec have none of the
characters that mean something in a URL (`reserved`), and the time is shown exactly
(`Webui.deadJob_addressed_iff`).
-/

namespace Webui

section Page

/-- The text of a number on a page. Every number is a double there. -/
def jsNumber (value : Int64) : String :=
  String.ofList (Float64.encode (Float64.read value.toInt)).text

/-- The buttons for the dead jobs that are selected. -/
inductive Button where
  | deleteSelected
  | retrySelected
  deriving DecidableEq

/-- What the URLs of a button begin with. -/
def Button.baseURL : Button → String
  | .deleteSelected => "./delete_dead_job"
  | .retrySelected => "./retry_dead_job"

/-- The URL that is fetched for a dead job. -/
def Button.url (button : Button) (diedAt : Int64) (id : String) : String :=
  button.baseURL ++ "/" ++ jsNumber diedAt ++ "/" ++ id

end Page

section Handlers

/-- The calls of a client that are made for a dead job. -/
inductive ClientCall where
  | deleteDeadJob (diedAt : Int64) (jobID : List UInt8)
  | retryDeadJob (diedAt : Int64) (jobID : List UInt8)
  deriving DecidableEq

/-- The value of a wildcard. -/
def pathValue (values : PathValues) (name : String) : List UInt8 := (values.lookup name).getD []

/-- Make a call for a dead job, unless the time cannot be read. -/
def deadJobHandler (call : Int64 → List UInt8 → ClientCall) (values : PathValues) :
    Option ClientCall :=
  ((String.fromUTF8? (pathValue values "died_at").toByteArray).bind parseInt).map
    fun diedAt => call diedAt (pathValue values "job_id")

def deleteDeadJob : PathValues → Option ClientCall := deadJobHandler .deleteDeadJob

def retryDeadJob : PathValues → Option ClientCall := deadJobHandler .retryDeadJob

/-- The handler that is meant by a button. -/
def Button.handler : Button → Handler
  | .deleteSelected => .deleteDeadJob
  | .retrySelected => .retryDeadJob

/-- What the handler that is meant by a button does. -/
def Button.handle : Button → PathValues → Option ClientCall
  | .deleteSelected => deleteDeadJob
  | .retrySelected => retryDeadJob

/-- The call that is meant by a button. -/
def Button.call : Button → Int64 → List UInt8 → ClientCall
  | .deleteSelected => .deleteDeadJob
  | .retrySelected => .retryDeadJob

end Handlers

/-- The identifiers that are generated for jobs. -/
inductive JobID where
  | random (bytes : Vector UInt8 12)
  | periodic (name spec : String) (epoch : Int64)

/-- An identifier of random bytes. -/
def makeIdentifier (bytes : Vector UInt8 12) : String :=
  String.ofList (bytes.toList.flatMap fun byte =>
    [Nat.digitChar (byte.toNat / 16), Nat.digitChar (byte.toNat % 16)])

/-- The text of an identifier. -/
def JobID.text : JobID → String
  | .random bytes => makeIdentifier bytes
  | .periodic name spec epoch => Periodic.makeUniquePeriodicID name spec epoch

section Routing

/-- The first segment of the paths of a button. -/
def Button.name : Button → String
  | .deleteSelected => "delete_dead_job"
  | .retrySelected => "retry_dead_job"

/-- A path of three encoded segments is served by the handler that is meant. -/
theorem serve_encoded (button : Button) {diedAt jobID : List UInt8}
    (time : PercentEncoding.mark ∉ diedAt ∧ diedAt ≠ [])
    (name : PercentEncoding.mark ∉ jobID ∧ jobID ≠ []) :
    serve .post ([utf8 button.name, diedAt, jobID].map
        (PercentEncoding.encode escapedInPath)) =
      .handled button.handler [("died_at", diedAt), ("job_id", jobID)] := by
  have first : PercentEncoding.mark ∉ utf8 button.name ∧ utf8 button.name ≠ [] := by
    cases button <;> decide
  have decoded : ([utf8 button.name, diedAt, jobID].map
      (PercentEncoding.encode escapedInPath)).mapM PercentEncoding.decode =
        some [utf8 button.name, diedAt, jobID] := by
    simp only [List.map_cons, List.map_nil, List.mapM_cons, List.mapM_nil,
      PercentEncoding.decode_encode escapedInPath first.1,
      PercentEncoding.decode_encode escapedInPath time.1,
      PercentEncoding.decode_encode escapedInPath name.1]
    rfl
  have full : [] ∉ ([utf8 button.name, diedAt, jobID].map
      (PercentEncoding.encode escapedInPath)).dropLast := by
    intro member
    obtain same | member := List.mem_cons.mp member
    · exact encode_ne_nil first.2 same.symm
    · exact encode_ne_nil time.2 (List.mem_singleton.mp member).symm
  have other : utf8 "retry_dead_job" ≠ utf8 "delete_dead_job" := by decide
  rw [serve, decoded]
  simp only [if_neg full]
  cases button with
  | deleteSelected =>
      simp [newHandler, matchSegments, Button.name, Button.handler, time.2, name.2]
  | retrySelected =>
      simp [newHandler, matchSegments, Button.name, Button.handler, time.2, name.2, other]

end Routing

section Tame

/-- A lower-case letter, a digit or a minus. -/
def Tame (char : Char) : Prop :=
  char.toNat = 45 ∨ 48 ≤ char.toNat ∧ char.toNat ≤ 57 ∨ 97 ≤ char.toNat ∧ char.toNat ≤ 122

instance : DecidablePred Tame := fun char =>
  inferInstanceAs (Decidable (char.toNat = 45 ∨ 48 ≤ char.toNat ∧ char.toNat ≤ 57 ∨
    97 ≤ char.toNat ∧ char.toNat ≤ 122))

variable {char : Char} {text : String}

theorem Tame.bounds (tame : Tame char) :
    32 < char.toNat ∧ char.toNat < 128 ∧ char.toNat ≠ 37 ∧ char.toNat ≠ 46 ∧ char.toNat ≠ 58 := by
  unfold Tame at tame
  omega

theorem not_tame_of_reserved : ∀ char ∈ reserved, ¬ Tame char :=
  List.all_iff_forall_prop.mp (by decide)

theorem tame_intDigits (value : ℤ) : ∀ char ∈ intDigits value, Tame char := by
  have digit : ∀ char ∈ Nat.toDigits 10 value.natAbs, Tame char := by
    intro char member
    have digit := isDigit_toDigits _ char member
    simp only [Char.isDigit, ge_iff_le, Bool.and_eq_true, decide_eq_true_eq] at digit
    exact .inr (.inl ⟨UInt32.le_iff_toNat_le.mp digit.1, UInt32.le_iff_toNat_le.mp digit.2⟩)
  intro char member
  unfold intDigits at member
  split at member
  · obtain rfl | member := List.mem_cons.mp member
    · decide
    · exact digit char member
  · exact digit char member

theorem intDigits_ne_nil (value : ℤ) : intDigits value ≠ [] := by
  unfold intDigits
  split
  · exact List.cons_ne_nil _ _
  · exact Nat.toDigits_ne_nil

theorem tame_jsNumber (value : Int64) :
    (∀ char ∈ (jsNumber value).toList, Tame char) ∧ (jsNumber value).toList ≠ [] := by
  obtain ⟨shown, bare⟩ := Float64.exists_encode_int64 value
  rw [jsNumber, bare, String.toList_ofList]
  exact ⟨tame_intDigits shown, intDigits_ne_nil shown⟩

theorem tame_makeIdentifier (bytes : Vector UInt8 12) :
    (∀ char ∈ (makeIdentifier bytes).toList, Tame char) ∧ (makeIdentifier bytes).toList ≠ [] := by
  have digits : ∀ value < 16, Tame (Nat.digitChar value) := by decide
  rw [makeIdentifier, String.toList_ofList]
  constructor
  · intro char member
    obtain ⟨byte, -, member⟩ := List.mem_flatMap.mp member
    have bound := byte.toNat_lt
    obtain rfl | member := List.mem_cons.mp member
    · exact digits _ (by omega)
    · rw [List.mem_singleton.mp member]
      exact digits _ (by omega)
  · obtain ⟨byte, rest, split⟩ : ∃ byte rest, bytes.toList = byte :: rest :=
      List.exists_cons_of_length_eq_add_one (n := 11) bytes.length_toList
    rw [split, List.flatMap_cons]
    exact List.cons_ne_nil _ _

/-- The first byte of a string that begins with a tame character. -/
theorem head?_utf8 (head : text.toList.head? = some char) (tame : Tame char) :
    (utf8 text).head? = some (UInt8.ofNat char.toNat) := by
  obtain ⟨rest, split⟩ := List.head?_eq_some_iff.mp head
  rw [utf8, split, List.flatMap_cons, utf8EncodeChar_ascii tame.bounds.2.1]
  rfl

/-- The last byte of a string that ends with a tame character. -/
theorem getLast?_utf8 (foot : text.toList.getLast? = some char) (tame : Tame char) :
    (utf8 text).getLast? = some (UInt8.ofNat char.toNat) := by
  obtain ⟨front, split⟩ := List.getLast?_eq_some_iff.mp foot
  rw [utf8, split, List.flatMap_append, List.flatMap_singleton,
    utf8EncodeChar_ascii tame.bounds.2.1, List.getLast?_append]
  rfl

theorem bare_of_tame (tame : ∀ char ∈ text.toList, Tame char) :
    ∀ byte ∈ utf8 text, Bare byte := by
  rw [bare_utf8_iff]
  exact fun char member special => not_tame_of_reserved char special (tame char member)

/-- What begins with a tame character is a segment. -/
theorem exists_cons_utf8 (head : text.toList.head? = some char) (tame : Tame char) :
    ∃ byte rest, utf8 text = byte :: rest ∧ byte ≠ 46 ∧ byte ≠ 37 := by
  obtain ⟨rest, split⟩ := List.head?_eq_some_iff.mp (head?_utf8 head tame)
  obtain ⟨-, ascii, unescaped, undotted, -⟩ := tame.bounds
  have differs {byte : UInt8} (other : char.toNat ≠ byte.toNat) :
      UInt8.ofNat char.toNat ≠ byte := by
    rintro rfl
    exact other (toNat_ofNat_ascii ascii).symm
  exact ⟨_, rest, split, differs undotted, differs unescaped⟩

theorem not_blank_of_tame (tame : Tame char) : blank (UInt8.ofNat char.toNat) = false := by
  obtain ⟨visible, ascii, -⟩ := tame.bounds
  refine decide_eq_false fun small => ?_
  have value := UInt8.le_iff_toNat_le.mp small
  rw [toNat_ofNat_ascii ascii] at value
  exact Nat.not_le.mpr visible value

end Tame

section Addressing

/-- A dot at the begin of a path stays where it is. -/
theorem resolve_dot (path segments : List (List UInt8)) (segment : List UInt8) :
    resolve path ([46] :: segment :: segments) = resolve path (segment :: segments) := by
  have single : singleDot [46] = true := by decide
  have double : doubleDot [46] = false := by decide
  rw [resolve]
  simp [single, double]

theorem utf8_url (button : Button) (diedAt : Int64) (id : String) :
    utf8 (button.url diedAt id) =
      [46] ++ 47 :: (utf8 button.name ++ 47 :: (utf8 (jsNumber diedAt) ++ 47 :: utf8 id)) := by
  have slash : utf8 "/" = [47] := by decide
  have base : utf8 button.baseURL = [46] ++ 47 :: utf8 button.name := by
    cases button <;> decide
  simp only [Button.url, utf8_append, base, slash, List.append_assoc, List.cons_append,
    List.nil_append]

theorem bare_name (button : Button) : ∀ byte ∈ utf8 button.name, Bare byte := by
  rw [bare_utf8_iff]
  cases button <;> exact List.all_iff_forall_prop.mp (by decide)

theorem exists_cons_name (button : Button) :
    ∃ byte rest, utf8 button.name = byte :: rest ∧ byte ≠ 46 ∧ byte ≠ 37 := by
  cases button with
  | deleteSelected =>
      exact exists_cons_utf8 (show "delete_dead_job".toList.head? = some 'd' from rfl) (by decide)
  | retrySelected =>
      exact exists_cons_utf8 (show "retry_dead_job".toList.head? = some 'r' from rfl) (by decide)

theorem exists_cons_jsNumber (value : Int64) :
    ∃ byte rest, utf8 (jsNumber value) = byte :: rest ∧ byte ≠ 46 ∧ byte ≠ 37 := by
  obtain ⟨digits, nonempty⟩ := tame_jsNumber value
  obtain ⟨digit, more, shown⟩ := List.exists_cons_of_ne_nil nonempty
  rw [shown] at digits
  exact exists_cons_utf8 (List.head?_eq_some_iff.mpr ⟨more, shown⟩)
    (digits digit List.mem_cons_self)

/-- The segments before the identifier, and what is left of the identifier. -/
theorem splitOnP_url (button : Button) (diedAt : Int64) (id : String) :
    (pathPart (utf8 (button.url diedAt id))).splitOnP separates =
      [46] :: utf8 button.name :: utf8 (jsNumber diedAt) ::
        (pathPart (utf8 id)).splitOnP separates := by
  have slash (rest : List UInt8) : pathPart (47 :: rest) = 47 :: pathPart rest :=
    pathPart_cons (by decide) (by decide)
  have dot : ∀ byte ∈ [(46 : UInt8)], Bare byte := by
    intro byte member
    rw [List.mem_singleton.mp member, bare_iff]
    exact List.all_iff_forall_prop.mp (by decide)
  have time := bare_of_tame (tame_jsNumber diedAt).1
  rw [utf8_url, pathPart_append dot, slash, pathPart_append (bare_name button), slash,
    pathPart_append time, slash, splitOnP_append dot, splitOnP_append (bare_name button),
    splitOnP_append time]

/-- The path a browser requests for a dead job. -/
theorem fetchPath_url (button : Button) (diedAt : Int64) {id : String} {last : Char}
    (foot : id.toList.getLast? = some last) (tame : Tame last) :
    fetchPath (utf8 (button.url diedAt id)) =
      resolve ([utf8 button.name, utf8 (jsNumber diedAt)].map
          (PercentEncoding.encode escapedInPath))
        ((pathPart (utf8 id)).splitOnP separates) := by
  have begins : (utf8 (button.url diedAt id)).head? = some 46 := by
    rw [utf8_url]
    rfl
  have ends : (utf8 (button.url diedAt id)).getLast? = some (UInt8.ofNat last.toNat) := by
    rw [utf8_url]
    simp only [List.getLast?_append, List.getLast?_cons, getLast?_utf8 foot tame,
      Option.getD_some, Option.or_some]
    rfl
  obtain ⟨byte, rest, named, undotted, unescaped⟩ := exists_cons_name button
  obtain ⟨digit, digits, timed, undotted', unescaped'⟩ := exists_cons_jsNumber diedAt
  rw [fetchPath]
  simp only [trimmed_eq begins ends (by decide) (not_blank_of_tame tame)]
  change resolve [] ((pathPart (utf8 (button.url diedAt id))).splitOnP separates) = _
  rw [splitOnP_url, resolve_dot, named, resolve_cons undotted unescaped, timed,
    resolve_cons undotted' unescaped']
  rfl

/-- An identifier without reserved characters. -/
def JobID.Bare : JobID → Prop
  | .random _ => True
  | .periodic name spec _ => ∀ char ∈ name.toList ++ spec.toList, char ∉ reserved

theorem JobID.bare_iff (id : JobID) : id.Bare ↔ ∀ char ∈ id.text.toList, char ∉ reserved := by
  cases id with
  | random bytes =>
      refine iff_of_true trivial fun char member special => ?_
      exact not_tame_of_reserved char special ((tame_makeIdentifier bytes).1 char member)
  | periodic name spec epoch =>
      have digits : ∀ char ∈ intDigits epoch.toInt, char ∉ reserved := fun char member special =>
        not_tame_of_reserved char special (tame_intDigits _ char member)
      have label : ∀ char ∈ "periodic:".toList, char ∉ reserved :=
        List.all_iff_forall_prop.mp (by decide)
      have colon : ∀ char ∈ ":".toList, char ∉ reserved :=
        List.all_iff_forall_prop.mp (by decide)
      simp only [JobID.Bare, JobID.text, Periodic.makeUniquePeriodicID, String.toList_append,
        String.toList_ofList, List.forall_mem_append]
      constructor
      · rintro ⟨named, specified⟩
        exact ⟨⟨⟨⟨⟨label, named⟩, colon⟩, specified⟩, colon⟩, digits⟩
      · rintro ⟨⟨⟨⟨⟨-, named⟩, -⟩, specified⟩, -⟩, -⟩
        exact ⟨named, specified⟩

/-- An identifier begins and ends with tame characters. -/
theorem JobID.ends (id : JobID) :
    (∃ first, id.text.toList.head? = some first ∧ Tame first) ∧
      ∃ last, id.text.toList.getLast? = some last ∧ Tame last := by
  cases id with
  | random bytes =>
      obtain ⟨tame, nonempty⟩ := tame_makeIdentifier bytes
      refine ⟨⟨_, List.head?_eq_some_head nonempty, tame _ (List.head_mem nonempty)⟩,
        ⟨_, List.getLast?_eq_some_getLast nonempty, tame _ (List.getLast_mem nonempty)⟩⟩
  | periodic name spec epoch =>
      have nonempty := intDigits_ne_nil epoch.toInt
      refine ⟨⟨'p', ?_, by decide⟩, ⟨(intDigits epoch.toInt).getLast nonempty, ?_,
        tame_intDigits _ _ (List.getLast_mem nonempty)⟩⟩
      · simp only [JobID.text, Periodic.makeUniquePeriodicID, String.toList_append,
          List.append_assoc]
        rfl
      · simp only [JobID.text, Periodic.makeUniquePeriodicID, String.toList_append,
          String.toList_ofList, List.getLast?_append, List.getLast?_eq_some_getLast nonempty,
          Option.some_or]

/-- A segment of an identifier that is decoded to the whole identifier is the identifier, and
has only bare bytes. -/
theorem bare_of_decoded {bytes segment : List UInt8}
    (member : segment ∈ (pathPart bytes).splitOnP separates)
    (read : PercentEncoding.decode (PercentEncoding.encode escapedInPath segment) = some bytes) :
    ∀ byte ∈ bytes, Bare byte := by
  obtain ⟨short, shorter⟩ := PercentEncoding.length_decode_encode (by decide) read
  have whole : segment = bytes :=
    ((Splitting.sublist_of_mem member).trans (pathPart_sublist bytes)).eq_of_length_le short
  subst whole
  intro byte inside
  obtain bare | rfl := bare_of_mem_segment member inside
  · exact bare
  · exact absurd (shorter inside) (Nat.lt_irrefl _)

theorem colon_not_mem_jsNumber (value : Int64) : 58 ∉ utf8 (jsNumber value) := by
  intro member
  have inside := (mem_utf8_iff (show ':'.toNat < 128 by decide) (jsNumber value)).mp member
  exact absurd ((tame_jsNumber value).1 ':' inside) (by decide)

/-- If a handler gets the identifier of a job, then the identifier has no reserved
characters. -/
theorem JobID.bare_of_handled {button : Button} {diedAt : Int64} {id : JobID} {handler : Handler}
    {values : PathValues}
    (served : serve .post (fetchPath (utf8 (button.url diedAt id.text))) = .handled handler values)
    (named : ("job_id", utf8 id.text) ∈ values) : id.Bare := by
  cases id with
  | random bytes => trivial
  | periodic name spec epoch =>
      obtain ⟨-, last, foot, tame⟩ := JobID.ends (.periodic name spec epoch)
      rw [JobID.bare_iff, ← bare_utf8_iff]
      have colon : 58 ∈ utf8 (JobID.periodic name spec epoch).text := by
        refine (mem_utf8_iff (show ':'.toNat < 128 by decide) _).mpr ?_
        simp [JobID.text, Periodic.makeUniquePeriodicID]
      generalize (JobID.periodic name spec epoch).text = text at *
      -- a segment before the identifier has no colon
      have apart {bytes : List UInt8} (bare : ∀ byte ∈ bytes, Webui.Bare byte)
          (without : 58 ∉ bytes) :
          PercentEncoding.decode (PercentEncoding.encode escapedInPath bytes) ≠
            some (utf8 text) := by
        rw [PercentEncoding.decode_encode _ fun inside => (bare _ inside).2.2.2 rfl]
        intro same
        exact without (Option.some.inj same ▸ colon)
      obtain ⟨segment, member, read⟩ := decode_of_handled served _ named
      rw [fetchPath_url button diedAt foot tame] at member
      refine @forall_resolve (fun segment => PercentEncoding.decode segment =
        some (utf8 text) → ∀ byte ∈ utf8 text, Webui.Bare byte) _ _ ?_ ?_ ?_ segment member read
      · intro segment member read
        obtain rfl | member := List.mem_cons.mp member
        · have without : 58 ∉ utf8 button.name := by cases button <;> decide
          exact absurd read (apart (bare_name button) without)
        · rw [List.mem_singleton.mp member] at read
          exact absurd read (apart (bare_of_tame (tame_jsNumber diedAt).1)
            (colon_not_mem_jsNumber diedAt))
      · intro read
        rw [← Option.some.inj read] at colon
        cases colon
      · exact fun segment member read => bare_of_decoded member read

/-- What becomes of a request for a dead job whose identifier has no reserved characters. -/
theorem serve_url (button : Button) (diedAt : Int64) {id : JobID} (bare : id.Bare) :
    serve .post (fetchPath (utf8 (button.url diedAt id.text))) =
      .handled button.handler
        [("died_at", utf8 (jsNumber diedAt)), ("job_id", utf8 id.text)] := by
  obtain ⟨⟨first, head, tame'⟩, last, foot, tame⟩ := id.ends
  have bytes := (bare_utf8_iff id.text).mpr (id.bare_iff.mp bare)
  have digits := bare_of_tame (tame_jsNumber diedAt).1
  obtain ⟨byte, rest, split, undotted, unescaped⟩ := exists_cons_utf8 head tame'
  obtain ⟨byte', rest', timed, -⟩ := exists_cons_jsNumber diedAt
  have alone : (utf8 id.text).splitOnP separates = [utf8 id.text] :=
    List.splitOnP_eq_singleton fun byte member => (bytes byte member).2.2.1
  rw [fetchPath_url button diedAt foot tame, pathPart_of_bare bytes, alone, split,
    resolve_cons undotted unescaped, ← split]
  refine serve_encoded button ⟨fun inside => (digits _ inside).2.2.2 rfl, ?_⟩
    ⟨fun inside => (bytes _ inside).2.2.2 rfl, ?_⟩
  · rw [timed]
    exact List.cons_ne_nil _ _
  · rw [split]
    exact List.cons_ne_nil _ _

/-- A handler makes its call for the values it gets. -/
theorem deadJobHandler_values (call : Int64 → List UInt8 → ClientCall) (diedAt : Int64)
    (jobID : String) :
    deadJobHandler call [("died_at", utf8 (formatInt diedAt)), ("job_id", utf8 jobID)] =
      some (call diedAt (utf8 jobID)) := by
  have first (time name : List UInt8) :
      pathValue [("died_at", time), ("job_id", name)] "died_at" = time := by
    simp [pathValue]
  have second (time name : List UInt8) :
      pathValue [("died_at", time), ("job_id", name)] "job_id" = name := by
    simp [pathValue, List.lookup_cons]
  rw [deadJobHandler, first, second, fromUTF8?_utf8, Option.bind_some, parseInt_formatInt,
    Option.map_some]

/-- A small integer is shown as it is. -/
theorem jsNumber_eq {value : Int64} (small : |value.toInt| < 2 ^ 53) :
    jsNumber value = formatInt value := by
  rw [jsNumber, Float64.read_intCast small, Float64.encode_intCast small]
  rfl

/-- An integer of more than 53 binary digits may be shown as another one. -/
example : jsNumber 9007199254740993 = "9007199254740992" := by decide +kernel

/-- The URL of a button for a dead job is served by the handler that is meant, with the time
of death and the identifier of the job, if and only if the name and the spec of a periodic job
have no reserved characters and the time is shown exactly. The handler then makes the call that
is meant. A time of at most 53 binary digits is shown exactly. -/
theorem deadJob_addressed_iff (button : Button) (diedAt : Int64) (id : JobID) :
    (serve .post (fetchPath (utf8 (button.url diedAt id.text))) =
        .handled button.handler
          [("died_at", utf8 (formatInt diedAt)), ("job_id", utf8 id.text)] ↔
      id.Bare ∧ jsNumber diedAt = formatInt diedAt) ∧
    button.handle [("died_at", utf8 (formatInt diedAt)), ("job_id", utf8 id.text)] =
      some (button.call diedAt (utf8 id.text)) ∧
    (|diedAt.toInt| < 2 ^ 53 → jsNumber diedAt = formatInt diedAt) := by
  refine ⟨⟨fun served => ?_, ?_⟩, ?_, jsNumber_eq⟩
  · have bare := JobID.bare_of_handled served (List.mem_cons_of_mem _ List.mem_cons_self)
    rw [serve_url button diedAt bare] at served
    injection served with same values
    have timed := (Prod.mk.inj (List.cons.inj values).1).2
    exact ⟨bare, utf8_injective timed⟩
  · rintro ⟨bare, exact'⟩
    rw [serve_url button diedAt bare, exact']
  · cases button with
    | deleteSelected =>
        rw [Button.handle, deleteDeadJob, deadJobHandler_values, Button.call]
    | retrySelected =>
        rw [Button.handle, retryDeadJob, deadJobHandler_values, Button.call]

/-- The steps and the question mark of a cron spec break the path, and so do a slash and a
percent sign in a name. -/
theorem deadJob_unaddressed :
    serve .post (fetchPath (utf8 (Button.deleteSelected.url 1700000300
        (JobID.periodic "report" "0 */5 * * * *" 1700000100).text))) = .notFound ∧
      serve .post (fetchPath (utf8 (Button.retrySelected.url 1700000300
        (JobID.periodic "report" "0 0 0 ? * 1" 1700000100).text))) =
          .handled .retryDeadJob
            [("died_at", utf8 "1700000300"), ("job_id", utf8 "periodic:report:0 0 0 ")] ∧
      serve .post (fetchPath (utf8 (Button.deleteSelected.url 1700000300
        (JobID.periodic "mail/bulk" "0 0 * * * *" 1700000100).text))) = .notFound ∧
      serve .post (fetchPath (utf8 (Button.retrySelected.url 1700000300
        (JobID.periodic "top 10%" "0 0 * * * *" 1700000100).text))) = .badRequest := by
  refine ⟨?_, ?_, ?_, ?_⟩ <;> decide +kernel

end Addressing

end Webui
