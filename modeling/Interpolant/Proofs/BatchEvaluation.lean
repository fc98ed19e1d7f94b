import Interpolant.Fresh
import Interpolant.Proofs.BlockLayout
import Interpolant.Proofs.Evaluation

/-! # One query or many

There are several ways to ask for the value at one query, with the buffer of the caller or without
one, and all of them come to the same outcome, in which only the table and the query have a part. A
run over many queries lays the values of its queries out one after another, and it can be cut at any
query.
-/

namespace Interpolant

universe u v w

variable {α : Type u}

namespace Traced

variable {ε : Type v} {δ : Type w} {first : Traced ε (List α)} {f : ε → δ}

@[simp] theorem mapFault_result_eq_ok_iff {value : List α} :
    (first.mapFault f).result = .ok value ↔ first.result = .ok value := by
  obtain ⟨result, log⟩ := first
  cases result with
  | error fault => exact ⟨nofun, nofun⟩
  | ok block =>
    constructor <;> exact fun same => congrArg Except.ok (Except.ok.inj same)

@[simp] theorem mapFault_result_eq_error_iff {reason : δ} :
    (first.mapFault f).result = .error reason ↔
      ∃ fault, first.result = .error fault ∧ f fault = reason := by
  obtain ⟨result, log⟩ := first
  cases result with
  | error fault =>
    constructor
    · exact fun same => ⟨fault, rfl, Except.error.inj same⟩
    · rintro ⟨other, here, same⟩
      obtain rfl := Except.error.inj here
      exact congrArg Except.error same
  | ok block => exact ⟨nofun, fun ⟨_, failed, _⟩ => nomatch failed⟩

end Traced

namespace Written

@[simp] theorem contents_result_eq_ok_iff {call : Written α} {value : List α} :
    call.contents.result = .ok value ↔ call.result = .ok () ∧ call.out = value := by
  obtain ⟨result, out, log⟩ := call
  cases result <;> simp [contents, Except.map]

@[simp] theorem contents_result_eq_error_iff {call : Written α} {fault : Fault} :
    call.contents.result = .error fault ↔ call.result = .error fault := by
  obtain ⟨result, out, log⟩ := call
  cases result <;> simp [contents, Except.map]

theorem contents_andThen (first : Written α) (rest : List α) (second : List α → Written α) :
    (first.andThen rest second).contents =
      first.contents.bind fun block => (second rest).contents.map (block ++ ·) := by
  obtain ⟨result, out, log⟩ := first
  cases result with
  | error fault => rfl
  | ok =>
    simp only [andThen, contents, Traced.bind, Traced.map, Except.map]
    cases (second rest).result <;> rfl

/-- Of three calls on the parts of one buffer, the last two can be taken for one. -/
theorem andThen_append (first : Written α) {middle rest : List α}
    {whole second third : List α → Written α}
    (split : whole (middle ++ rest) = (second middle).andThen rest third) :
    first.andThen (middle ++ rest) whole = (first.andThen middle second).andThen rest third := by
  obtain ⟨result, out, log⟩ := first
  cases result with
  | error fault => simp only [andThen, List.append_assoc]
  | ok =>
    simp only [andThen, split]
    cases (second middle).result <;> simp only [List.append_assoc]

end Written

variable [Scalar α]

namespace Table

/-- What an evaluation comes to, whatever buffer it is given. -/
def outcome (table : Table α) (x : α) : Traced Fault (List α) :=
  match Basis.coincidence? table.locations with
  | some met => ⟨.error met.fault, [met.event]⟩
  | none => .done (table.value x)

/-- What a run over many queries comes to, as long as its buffer has the right length. -/
def outcomes (table : Table α) : List α → Traced Fault (List α)
  | [] => .done []
  | x :: queries =>
    (table.outcome x).bind fun block => (table.outcomes queries).map (block ++ ·)

variable {table : Table α} {x : α} {queries out : List α} {fault : Fault}

@[simp] theorem outcome_result_eq_ok_iff {block : List α} : (table.outcome x).result = .ok block ↔
    Basis.coincidence? table.locations = none ∧ table.value x = block := by
  simp only [outcome]
  split
  · next found => simp [found]
  · next none => simp [none]

@[simp] theorem outcome_result_eq_error_iff : (table.outcome x).result = .error fault ↔
    ∃ met, Basis.coincidence? table.locations = some met ∧ met.fault = fault := by
  simp only [outcome]
  split
  · next found => simp [found]
  · next none => simp [none]

@[simp] theorem outcomes_result_eq_ok_iff {blocks : List α} :
    (table.outcomes queries).result = .ok blocks ↔
      (queries = [] ∨ Basis.coincidence? table.locations = none) ∧
        queries.flatMap table.value = blocks := by
  induction queries generalizing blocks with
  | nil => simp [outcomes]
  | cons x rest ih =>
    cases found : Basis.coincidence? table.locations with
    | some met => simp [outcomes, outcome, found, Except.bind]
    | none =>
      have tail : (table.outcomes rest).result = .ok (rest.flatMap table.value) :=
        ih.mpr ⟨.inr found, rfl⟩
      simp [outcomes, outcome, found, Except.bind, Except.map, tail]

@[simp] theorem outcomes_result_eq_error_iff : (table.outcomes queries).result = .error fault ↔
    queries ≠ [] ∧ ∃ met, Basis.coincidence? table.locations = some met ∧ met.fault = fault := by
  cases queries with
  | nil => simp [outcomes]
  | cons x rest =>
    cases found : Basis.coincidence? table.locations with
    | some met => simp [outcomes, outcome, found, Except.bind]
    | none =>
      have success : (table.outcomes (x :: rest)).result =
          .ok ((x :: rest).flatMap table.value) := outcomes_result_eq_ok_iff.mpr ⟨.inr found, rfl⟩
      simp [success]

theorem evaluate_contents (room : out.length = table.stride) (x : α) :
    (table.evaluate x out).contents = table.outcome x := by
  rw [outcome]
  cases found : Basis.coincidence? table.locations with
  | some met => rw [evaluate_of_coincidence room found]; rfl
  | none => rw [evaluate_of_distinct room found]; rfl

/-- Every block of a run is written once, whole and at its own place. -/
theorem fill_contents (room : out.length = queries.length * table.stride) :
    (table.fill queries out).contents = table.outcomes queries := by
  induction queries generalizing out with
  | nil =>
    rw [room_nil room]
    rfl
  | cons x queries ih =>
    obtain ⟨-, chunk, remaining⟩ := room_cons room
    rw [fill, Written.contents_andThen, evaluate_contents chunk, ih remaining, outcomes]

/-- A run can be cut at any query. If the first part of it fails, the second one does not begin. -/
theorem fill_append (room : out.length = queries.length * table.stride) (more rest : List α) :
    table.fill (queries ++ more) (out ++ rest) =
      (table.fill queries out).andThen rest (table.fill more) := by
  induction queries generalizing out with
  | nil =>
    rw [room_nil room]
    rfl
  | cons x queries ih =>
    obtain ⟨enough, -, remaining⟩ := room_cons room
    rw [List.cons_append, fill, fill, List.take_append_of_le_length enough,
      List.drop_append_of_le_length enough]
    exact Written.andThen_append _ (ih remaining)

theorem evaluateAll_eq_fill (room : out.length = queries.length * table.stride)
    (word : out.length ≤ Size.largest) : table.evaluateAll queries out = table.fill queries out :=
  if_pos (Size.mul?_eq_some_iff.mpr ⟨room.symm, word⟩)

theorem evaluateAll_contents (room : out.length = queries.length * table.stride)
    (word : out.length ≤ Size.largest) :
    (table.evaluateAll queries out).contents = table.outcomes queries := by
  rw [evaluateAll_eq_fill room word, fill_contents room]

theorem evaluateAll_result_eq_ok_iff (room : out.length = queries.length * table.stride)
    (word : out.length ≤ Size.largest) : (table.evaluateAll queries out).result = .ok () ↔
      queries = [] ∨ Basis.coincidence? table.locations = none := by
  have contents := evaluateAll_contents room word
  constructor
  · intro success
    have whole := Written.contents_result_eq_ok_iff.mpr ⟨success, rfl⟩
    rw [contents] at whole
    exact (outcomes_result_eq_ok_iff.mp whole).1
  · intro distinct
    have whole := outcomes_result_eq_ok_iff.mpr ⟨distinct, rfl⟩
    rw [← contents] at whole
    exact (Written.contents_result_eq_ok_iff.mp whole).1

theorem evaluateAll_out (room : out.length = queries.length * table.stride)
    (word : out.length ≤ Size.largest) (success : (table.evaluateAll queries out).result = .ok ()) :
    (table.evaluateAll queries out).out = queries.flatMap table.value := by
  have whole := Written.contents_result_eq_ok_iff.mpr ⟨success, rfl⟩
  rw [evaluateAll_contents room word] at whole
  exact (outcomes_result_eq_ok_iff.mp whole).2.symm

theorem evaluateAll_result_eq_error_iff (room : out.length = queries.length * table.stride)
    (word : out.length ≤ Size.largest) : (table.evaluateAll queries out).result = .error fault ↔
      queries ≠ [] ∧ ∃ met, Basis.coincidence? table.locations = some met ∧ met.fault = fault := by
  rw [← Written.contents_result_eq_error_iff, evaluateAll_contents room word,
    outcomes_result_eq_error_iff]

theorem evaluateAll_append (room : out.length = queries.length * table.stride)
    {more rest : List α} (room' : rest.length = more.length * table.stride)
    (word : (out ++ rest).length ≤ Size.largest) :
    table.evaluateAll (queries ++ more) (out ++ rest) =
      (table.evaluateAll queries out).andThen rest (table.evaluateAll more) := by
  have both : (out ++ rest).length = (queries ++ more).length * table.stride := by
    rw [List.length_append, List.length_append, room, room', Nat.add_mul]
  rw [evaluateAll_eq_fill both word, fill_append room]
  rw [List.length_append] at word
  rw [evaluateAll_eq_fill room (by omega)]
  simp only [Written.andThen, evaluateAll_eq_fill room' (show rest.length ≤ _ by omega)]

end Table

variable [FixedWidth α]

theorem intoFresh_of_allocatable {size : Nat} (fits : Allocatable α size)
    (call : List α → Written α) :
    intoFresh size call = (call (List.replicate size 0)).contents.mapFault .refused :=
  if_pos fits

theorem Table.tabulate_eq {table : Table α} {queries : List α}
    (word : queries.length * table.stride ≤ Size.largest)
    (fits : Allocatable α (queries.length * table.stride)) :
    table.tabulate queries = (table.outcomes queries).mapFault .refused := by
  have size : Size.mul? queries.length table.stride = some (queries.length * table.stride) :=
    Size.mul?_eq_some_iff.mpr ⟨rfl, word⟩
  simp only [tabulate, size]
  rw [intoFresh_of_allocatable fits, evaluateAll_contents List.length_replicate]
  rw [List.length_replicate]
  exact word

/-- A way to ask a table for the value at one query. -/
inductive Request where
  /-- Into a buffer. -/
  | evaluate
  /-- As a block of as many values as the table has for every sample. -/
  | evaluateFixed
  /-- Into a buffer, with a check of the table. -/
  | interpolate
  /-- By the method's name, into a buffer. -/
  | method
  /-- Into a fresh buffer. -/
  | fresh
  /-- By the method's name, into a fresh buffer. -/
  | methodFresh

namespace Request

/-- The answer to a request. A buffer of the caller is looked at only after a success. -/
def answer : Request → α → Table α → List α → Traced FreshFault (List α)
  | .evaluate, x, table, out => (table.evaluate x out).contents.mapFault .refused
  | .evaluateFixed, x, table, _ => (table.evaluateFixed x table.stride).mapFault .refused
  | .interpolate, x, table, out => (Lagrange.interpolate x table out).contents.mapFault .refused
  | .method, x, table, out => (Method.lagrange.interpolate x table out).contents.mapFault .refused
  | .fresh, x, table, _ => Lagrange.interpolateFresh x table
  | .methodFresh, x, table, _ => Method.lagrange.interpolateFresh x table

omit [Scalar α] in
/-- A buffer that is used has room for one block, and one that has to be made can be made. -/
def Served : Request → Table α → List α → Prop
  | .evaluateFixed, _, _ => True
  | .fresh, table, _ => Allocatable α table.stride
  | .methodFresh, table, _ => Allocatable α table.stride
  | _, table, out => out.length = table.stride

theorem answer_eq {table : CheckedTable α} {request : Request} {out : List α}
    (served : request.Served table out) (x : α) :
    request.answer x table out = (table.outcome x).mapFault .refused := by
  have whole {out : List α} (room : out.length = table.stride) :
      (Lagrange.interpolate x table out).contents = table.outcome x := by
    rw [Lagrange.interpolate_checked, Table.evaluate_contents room]
  cases request with
  | evaluate => exact congrArg (Traced.mapFault _) (Table.evaluate_contents served x)
  | evaluateFixed =>
    exact congrArg (Traced.mapFault _) (Table.evaluate_contents List.length_replicate x)
  | interpolate => exact congrArg (Traced.mapFault _) (whole served)
  | method => exact congrArg (Traced.mapFault _) (whole served)
  | fresh =>
    rw [answer, Lagrange.interpolateFresh, intoFresh_of_allocatable served,
      whole List.length_replicate]
  | methodFresh =>
    rw [answer, Method.interpolateFresh, intoFresh_of_allocatable served]
    exact congrArg (Traced.mapFault _) (whole List.length_replicate)

variable {request : Request} {table : CheckedTable α} {x : α} {out : List α}

theorem answer_result_eq_ok_iff (served : request.Served table out) {block : List α} :
    (request.answer x table out).result = .ok block ↔
      Basis.coincidence? table.locations = none ∧ table.value x = block := by
  simp [answer_eq served]

theorem answer_result_eq_error_iff (served : request.Served table out) {reason : FreshFault} :
    (request.answer x table out).result = .error reason ↔
      ∃ met, Basis.coincidence? table.locations = some met ∧ .refused met.fault = reason := by
  simp only [answer_eq served, Traced.mapFault_result_eq_error_iff,
    Table.outcome_result_eq_error_iff]
  constructor
  · rintro ⟨_, ⟨met, found, rfl⟩, same⟩
    exact ⟨met, found, same⟩
  · rintro ⟨met, found, same⟩
    exact ⟨_, ⟨met, found, rfl⟩, same⟩

end Request

namespace Table

/-- A run over many queries into a buffer says of each query what every request for it says. -/
structure AgreesWithRequests (table : Table α) (queries out : List α) : Prop where
  /-- All requests for one query get the same answer, whatever a buffer held. -/
  request : ∀ x (request request' : Request) (buffer buffer' : List α),
    request.Served table buffer → request'.Served table buffer' →
      request.answer x table buffer = request'.answer x table buffer'
  /-- If one request fails, all of them fail with the same fault, whatever the query is. -/
  request_fault : ∀ x x' (request request' : Request) (buffer buffer' : List α) fault,
    request.Served table buffer → request'.Served table buffer' →
      (request.answer x table buffer).result = .error fault →
      (request'.answer x' table buffer').result = .error fault
  /-- The run succeeds exactly if there is nothing to do, or if a request succeeds. -/
  success : ∀ x (request : Request) (buffer : List α), request.Served table buffer →
    ((table.evaluateAll queries out).result = .ok () ↔
      queries = [] ∨ ∃ block, (request.answer x table buffer).result = .ok block)
  /-- The answer for a query is the block that the run leaves at its place. -/
  block : (table.evaluateAll queries out).result = .ok () →
    ∀ q x, queries[q]? = some x → ∀ (request : Request) (buffer : List α),
      request.Served table buffer →
      (request.answer x table buffer).result =
        .ok (((table.evaluateAll queries out).out.drop (q * table.stride)).take table.stride)
  /-- There is nothing else in the buffer. -/
  length : (table.evaluateAll queries out).result = .ok () →
    (table.evaluateAll queries out).out.length = queries.length * table.stride
  /-- If there is anything to do, the run fails exactly with the fault of a request. -/
  fault : queries ≠ [] → ∀ x (request : Request) (buffer : List α) fault,
    request.Served table buffer →
      ((table.evaluateAll queries out).result = .error fault ↔
        (request.answer x table buffer).result = .error (.refused fault))
  /-- A run into a fresh buffer comes to the same. -/
  tabulate : table.tabulate queries = (table.evaluateAll queries out).contents.mapFault .refused
  /-- What the buffer held does not matter. -/
  stale : ∀ before : List α, before.length = out.length →
    (table.evaluateAll queries before).contents = (table.evaluateAll queries out).contents
  /-- A longer run is this one and, if it succeeds, another one behind it. -/
  append : ∀ more rest : List α, rest.length = more.length * table.stride →
    (out ++ rest).length ≤ Size.largest →
    table.evaluateAll (queries ++ more) (out ++ rest) =
      (table.evaluateAll queries out).andThen rest (table.evaluateAll more)

/-- Into a buffer of the right length, which takes up no more memory than there can be, a run over
any queries agrees with all requests for single queries, and it fails only if all of them do. -/
theorem evaluateAll_agrees (table : Table α) (queries out : List α) (checked : table.check = .ok ())
    (room : out.length = queries.length * table.stride) (word : out.length ≤ Size.largest)
    (fits : Allocatable α out.length) : table.AgreesWithRequests queries out := by
  obtain ⟨table, rfl⟩ := (table.check_eq_ok_iff.mp checked).exists_checked
  have length : queries.length * table.stride ≤ Size.largest := room ▸ word
  have blocks : ∀ x ∈ queries, (table.value x).length = table.stride :=
    fun x _ => value_length table.aligned x
  constructor
  case request =>
    intro x request request' buffer buffer' served served'
    rw [request.answer_eq served, request'.answer_eq served']
  case request_fault =>
    intro x x' request request' buffer buffer' fault served served' failed
    rw [Request.answer_result_eq_error_iff served] at failed
    exact (Request.answer_result_eq_error_iff served').mpr failed
  case success =>
    intro x request buffer served
    simp only [evaluateAll_result_eq_ok_iff room word, Request.answer_result_eq_ok_iff served,
      exists_and_left, exists_eq', and_true]
  case block =>
    intro success q x here request buffer served
    have distinct := (evaluateAll_result_eq_ok_iff room word).mp success
    have nonempty : queries ≠ [] := List.ne_nil_of_mem (List.mem_of_getElem? here)
    rw [evaluateAll_out room word success, BlockLayout.take_drop_flatMap blocks here]
    exact (Request.answer_result_eq_ok_iff served).mpr ⟨distinct.resolve_left nonempty, rfl⟩
  case length =>
    intro success
    rw [evaluateAll_out room word success, BlockLayout.length_flatMap blocks]
  case fault =>
    intro nonempty x request buffer fault served
    simp only [evaluateAll_result_eq_error_iff room word,
      Request.answer_result_eq_error_iff served, FreshFault.refused.injEq, nonempty, ne_eq,
      not_false_eq_true, true_and]
  case tabulate =>
    rw [tabulate_eq length (room ▸ fits), evaluateAll_contents room word]
  case stale =>
    intro before same
    rw [evaluateAll_contents room word,
      evaluateAll_contents (same.trans room) (Nat.le_trans (Nat.le_of_eq same) word)]
  case append =>
    intro more rest room' word'
    exact evaluateAll_append room room' word'

/-- The second block of a run is the value at the second query, and neither it nor the first one is
mixed up with the numbers and the missing numbers that the buffer held. -/
theorem evaluateAll_agrees_stale :
    let table : Table Float := ⟨[0, 1, 3], [2, 4, 5, 3, 1, 7], 2⟩
    let run := table.evaluateAll [1 / 2, 4] [0 / 0, 7, 1 / 0, 9]
    run.result = .ok () ∧
      (Lagrange.interpolateFresh 4 table).result = .ok ((run.out.drop 2).take 2) ∧
      (table.evaluateAll [1 / 2, 4] [0, 0, 0, 0]).contents = run.contents := by
  intro table run
  have agrees := evaluateAll_agrees table [1 / 2, 4] [0 / 0, 7, 1 / 0, 9] rfl rfl
    (by decide) (by decide)
  have success : run.result = .ok () := rfl
  have served : Request.fresh.Served table [] := show Allocatable Float 2 by decide
  exact ⟨success, agrees.block success 1 4 rfl .fresh [] served, agrees.stale _ rfl⟩

end Table

end Interpolant
