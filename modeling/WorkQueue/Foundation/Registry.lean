import Mathlib.Data.List.Perm.Basic
import Mathlib.Data.List.Nodup
import Mathlib.Logic.Function.Basic

/-! # First claims and last values

Requests are served one after the other, and some of them name a key. The first request
for a free key is accepted and all later ones are refused, while every request replaces the
value of its key. So who is accepted depends on the first request of each key, and what is
left under a key on the last one (`Registry.Accepted`, `Registry.settle`). Serving the same
requests in another order has the same outcome if and only if it keeps the first request of
every free key and the value of the last one (`Registry.agree_iff`).
-/

namespace Registry

variable {Request Key Value : Type} [DecidableEq Key] (key : Request → Option Key)
  (value : Request → Value)

/-- The requests for a key. -/
def own (requests : List Request) (name : Key) : List Request :=
  requests.filter fun request => key request = some name

/-- A request is accepted if it names no key, or is the first for a free one. -/
def Accepted (held : Key → Option Value) (requests : List Request) (request : Request) : Prop :=
  ∀ name, key request = some name →
    held name = none ∧ (own key requests name).head? = some request

instance [DecidableEq Request] (held : Key → Option Value) (requests : List Request)
    (request : Request) : Decidable (Accepted key held requests request) :=
  match named : key request with
  | none => .isTrue fun _ impossible => nomatch named.symm.trans impossible
  | some name =>
      decidable_of_iff ((held name).isNone ∧ (own key requests name).head? = some request) <| by
        simp [Accepted, named]

/-- The values after all requests: of the last request for a key, or as before. -/
def settle (held : Key → Option Value) (requests : List Request) (name : Key) : Option Value :=
  ((own key requests name).getLast?.map value).or (held name)

/-- The values after one request. -/
def put (held : Key → Option Value) (request : Request) : Key → Option Value :=
  match key request with
  | none => held
  | some name => Function.update held name (some (value request))

section Steps

variable {key value} {held : Key → Option Value} {request other : Request}
  {requests : List Request} {name : Key}

theorem mem_own :
    request ∈ own key requests name ↔ request ∈ requests ∧ key request = some name := by
  simp only [own, List.mem_filter, decide_eq_true_eq]

theorem own_cons_of_eq (same : key request = some name) :
    own key (request :: requests) name = request :: own key requests name :=
  List.filter_cons_of_pos (decide_eq_true same)

theorem own_cons_of_ne (different : key request ≠ some name) :
    own key (request :: requests) name = own key requests name :=
  List.filter_cons_of_neg (by simpa using different)

theorem put_of_eq (same : key request = some name) :
    put key value held request name = some (value request) := by
  unfold put
  rw [same]
  exact Function.update_self ..

theorem put_of_ne (different : key request ≠ some name) :
    put key value held request name = held name := by
  unfold put
  cases found : key request with
  | none => rfl
  | some taken =>
      refine Function.update_of_ne ?_ ..
      rintro rfl
      exact different found

/-- The first request is accepted if it names no key or a free one. -/
theorem accepted_head :
    Accepted key held (request :: requests) request ↔
      ∀ name, key request = some name → held name = none := by
  refine forall_congr' fun name => forall_congr' fun named => ?_
  rw [own_cons_of_eq named]
  simp

/-- After the first request the others are served as if it had put its value before. -/
theorem accepted_tail (distinct : other ≠ request) :
    Accepted key held (request :: requests) other ↔
      Accepted key (put key value held request) requests other := by
  refine forall_congr' fun name => forall_congr' fun _ => ?_
  by_cases same : key request = some name
  · rw [own_cons_of_eq same, put_of_eq same]
    simp [distinct.symm]
  · rw [own_cons_of_ne same, put_of_ne same]

theorem settle_cons :
    settle key value held (request :: requests) =
      settle key value (put key value held request) requests := by
  funext name
  unfold settle
  by_cases same : key request = some name
  · rw [own_cons_of_eq same, put_of_eq same, List.getLast?_cons]
    cases (own key requests name).getLast? <;> rfl
  · rw [own_cons_of_ne same, put_of_ne same]

/-- Requests after the first ones are served as if these had put their values before. -/
theorem accepted_append_right {requests others : List Request} (later : other ∉ requests) :
    Accepted key held (requests ++ others) other ↔
      Accepted key (settle key value held requests) others other := by
  induction requests generalizing held with
  | nil => rfl
  | cons request requests ih =>
      have distinct : other ≠ request := List.ne_of_not_mem_cons later
      rw [List.cons_append, accepted_tail distinct, ih (List.not_mem_of_not_mem_cons later),
        settle_cons]

/-- Requests that follow do not matter for those before. -/
theorem accepted_append_left {requests others : List Request} (served : request ∈ requests) :
    Accepted key held (requests ++ others) request ↔ Accepted key held requests request := by
  refine forall_congr' fun name => forall_congr' fun named => ?_
  have member := mem_own.mpr ⟨served, named⟩
  have split : own key (requests ++ others) name = own key requests name ++ own key others name :=
    List.filter_append ..
  rw [split, List.head?_append_of_ne_nil _ (List.ne_nil_of_mem member)]

end Steps

section Orders

variable {key value} {held : Key → Option Value} {requests others : List Request}

/-- Two orders of the same requests accept the same ones and leave the same values if and
only if they agree on the first request of every free key and on the value of the last one. -/
theorem agree_iff (reordered : requests.Perm others) :
    ((∀ request ∈ requests, Accepted key held requests request ↔ Accepted key held others request) ∧
        settle key value held requests = settle key value held others) ↔
      ∀ name, (held name = none → (own key requests name).head? = (own key others name).head?) ∧
        (own key requests name).getLast?.map value = (own key others name).getLast?.map value := by
  have owned : ∀ name, (own key requests name).Perm (own key others name) :=
    fun name => reordered.filter _
  constructor
  · rintro ⟨accepted, settled⟩ name
    cases first : (own key requests name).head? with
    | none =>
        have empty := List.head?_eq_none_iff.mp first
        have others : own key others name = [] := (empty ▸ owned name).nil_eq.symm
        rw [empty, others]
        exact ⟨fun _ => rfl, rfl⟩
    | some request =>
        have member := List.mem_of_mem_head? first
        obtain ⟨served, named⟩ := mem_own.mp member
        refine ⟨fun free => ?_, ?_⟩
        · have kept : Accepted key held requests request := by
            intro taken again
            obtain rfl := Option.some.inj (named.symm.trans again)
            exact ⟨free, first⟩
          exact (((accepted request served).mp kept) name named).2.symm
        · have values := congrFun settled name
          obtain ⟨last, ends⟩ := Option.isSome_iff_exists.mp
            (List.getLast?_isSome.mpr (List.ne_nil_of_mem member))
          obtain ⟨last', ends'⟩ := Option.isSome_iff_exists.mp
            (List.getLast?_isSome.mpr (List.ne_nil_of_mem ((owned name).mem_iff.mp member)))
          simp only [settle, ends, ends', Option.map_some, Option.some_or] at values
          rw [ends, ends']
          exact values
  · intro agree
    constructor
    · intro request served
      refine forall_congr' fun name => forall_congr' fun _ => ?_
      refine and_congr_right fun free => ?_
      rw [(agree name).1 free]
    · funext name
      rw [settle, settle, (agree name).2]

end Orders

end Registry
