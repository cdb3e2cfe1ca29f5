import CrossOver.Engine.Network.State
import CrossOver.Lib.Transition
import Mathlib.Data.List.TakeWhile

/-!
# `HTTPAccessor_impl`

Requests of the work thread wait in a queue.  The accessor's thread pops them one
by one, collects in one buffer what curl passes on, and hands a copy of the buffer
back in a task, which the work thread pops and turns into a call of Lua.  The body
goes to Lua as a C string.

What curl does is a label: the chunks that it passes to `processFunc`, and what
`curl_easy_perform` returns after which time.  A session keeps the history beside
the state of the code.
-/

namespace CrossOver.Engine.Http

open CrossOver.Lib

open CrossOver.Engine.Network (HandleInfo)

structure HttpAccessorQuery where
  isGet : Bool
  url : Bytes
  data : Bytes
  customHttpHead : Bytes
  handler : HandleInfo
  deriving DecidableEq, Repr

structure HttpTask where
  handle : HandleInfo
  isSuccess : Bool
  recvBuff : Bytes
  useTime : UInt32
  deriving DecidableEq, Repr

structure Callback where
  funId : UInt32
  isSuccess : Bool
  body : Bytes
  useTime : UInt32
  deriving DecidableEq, Repr

/-- `lua_pushstring`: the text ends at its first zero byte. -/
def pushString (text : Bytes) : Bytes := text.takeWhile (· ≠ 0)

/-- `HttpTask::process`. -/
def HttpTask.process (task : HttpTask) : Option Callback :=
  if 0 < task.handle.funId then
    some { funId := task.handle.funId, isSuccess := task.isSuccess,
           body := pushString task.recvBuff, useTime := task.useTime }
  else none

/-- `query` is the request that `Run` is at, `taskList` the tasks of the accessor in the work
thread's queue, and `callbacks` are the calls made so far. -/
structure HttpAccessor where
  queryList : List HttpAccessorQuery
  query : Option HttpAccessorQuery
  recvBuff : Bytes
  taskList : List HttpTask
  callbacks : List Callback
  deriving DecidableEq, Repr

namespace HttpAccessor

def create : HttpAccessor :=
  { queryList := [], query := none, recvBuff := [], taskList := [], callbacks := [] }

/-- `Get` and `Post`, which fill in `isGet` and `data`. -/
def request (a : HttpAccessor) (query : HttpAccessorQuery) : HttpAccessor :=
  { a with queryList := a.queryList ++ [query] }

/-- `processFunc` -/
def processData (a : HttpAccessor) (data : Bytes) : HttpAccessor :=
  { a with recvBuff := a.recvBuff ++ data }

end HttpAccessor

/-- A request with the chunks that came for it and the outcome. -/
structure Exchange where
  query : HttpAccessorQuery
  chunks : List Bytes
  isSuccess : Bool
  useTime : UInt32
  deriving DecidableEq, Repr

namespace Exchange

/-- What `Init` makes of a buffer with all the chunks. -/
def task (e : Exchange) : HttpTask :=
  { handle := e.query.handler, isSuccess := e.isSuccess, recvBuff := e.chunks.flatten,
    useTime := e.useTime }

def promised (e : Exchange) : Option Callback :=
  if 0 < e.query.handler.funId then
    some { funId := e.query.handler.funId, isSuccess := e.isSuccess,
           body := e.chunks.flatten, useTime := e.useTime }
  else none

end Exchange

/-- The accessor, all requests so far, the chunks of the one it is at, the exchanges that are
through, and how many of their tasks the work thread has processed. -/
structure Session where
  accessor : HttpAccessor
  requested : List HttpAccessorQuery
  chunks : List Bytes
  performed : List Exchange
  processed : Nat
  deriving DecidableEq, Repr

namespace Session

def create : Session :=
  { accessor := .create, requested := [], chunks := [], performed := [], processed := 0 }

/-- The exchanges whose tasks have been processed. -/
def handled (s : Session) : List Exchange := s.performed.take s.processed

inductive Move
  | request (query : HttpAccessorQuery)
  | pop
  | chunk (data : Bytes)
  | perform (ret : Bool) (useTime : UInt32)
  | process
  deriving DecidableEq, Repr

inductive Step : Session → Move → Session → Prop where
  /-- `Get` or `Post` on the work thread -/
  | request {s : Session} (query : HttpAccessorQuery) :
      Step s (.request query)
        { s with
          accessor := s.accessor.request query
          requested := s.requested ++ [query] }
  /-- `query_list_.pop(query)` and `recv_buff_ = ""` -/
  | pop {s : Session} {query : HttpAccessorQuery} {rest : List HttpAccessorQuery} :
      s.accessor.query = none → s.accessor.queryList = query :: rest →
      Step s .pop
        { s with
          accessor := { s.accessor with
            queryList := rest
            query := some query
            recvBuff := [] }
          chunks := [] }
  | chunk {s : Session} (data : Bytes) : s.accessor.query.isSome →
      Step s (.chunk data)
        { s with
          accessor := s.accessor.processData data
          chunks := s.chunks ++ [data] }
  /-- The end of `doHttpGet` or `doHttpPost`, and the new task -/
  | perform {s : Session} {query : HttpAccessorQuery} (ret : Bool) (useTime : UInt32) :
      s.accessor.query = some query →
      Step s (.perform ret useTime)
        { s with
          accessor := { s.accessor with
            query := none
            taskList := s.accessor.taskList ++
              [{ handle := query.handler, isSuccess := ret, recvBuff := s.accessor.recvBuff,
                 useTime := useTime }] }
          performed := s.performed ++
            [{ query := query, chunks := s.chunks, isSuccess := ret, useTime := useTime }] }
  | process {s : Session} {task : HttpTask} {rest : List HttpTask} :
      s.accessor.taskList = task :: rest →
      Step s .process
        { s with
          accessor := { s.accessor with
            taskList := rest
            callbacks := s.accessor.callbacks ++ task.process.toList }
          processed := s.processed + 1 }

def sessions : System Session Move where
  initial s := s = create
  step := Step

/-- What the accessor holds, in terms of the history. -/
structure Traced (s : Session) : Prop where
  requests : s.requested =
    s.performed.map Exchange.query ++ s.accessor.query.toList ++ s.accessor.queryList
  buffer : s.accessor.query.isSome → s.accessor.recvBuff = s.chunks.flatten
  tasks : s.accessor.taskList = (s.performed.drop s.processed).map Exchange.task
  callbacks : s.accessor.callbacks = s.handled.filterMap fun e => e.task.process
  counted : s.processed ≤ s.performed.length

variable {s s' : Session} {move : Move}

theorem Traced.step (traced : Traced s) (step : Step s move s') : Traced s' := by
  cases step with
  | request query =>
      refine ⟨?_, traced.buffer, traced.tasks, traced.callbacks, traced.counted⟩
      change s.requested ++ [query] = s.performed.map Exchange.query ++ s.accessor.query.toList ++
        (s.accessor.queryList ++ [query])
      rw [traced.requests, List.append_assoc _ s.accessor.queryList]
  | @pop query rest idle queue =>
      refine ⟨?_, fun _ => rfl, traced.tasks, traced.callbacks, traced.counted⟩
      have requests := traced.requests
      rw [idle, queue] at requests
      rw [requests]
      simp
  | chunk data busy =>
      refine ⟨traced.requests, fun _ => ?_, traced.tasks, traced.callbacks, traced.counted⟩
      change s.accessor.recvBuff ++ data = (s.chunks ++ [data]).flatten
      rw [traced.buffer busy, List.flatten_append, List.flatten_singleton]
  | @perform query ret useTime busy =>
      have buffer := traced.buffer (by rw [busy]; rfl)
      refine ⟨?_, (fun impossible => by cases impossible), ?_, ?_, ?_⟩
      · have requests := traced.requests
        rw [busy] at requests
        rw [requests]
        simp
      · change s.accessor.taskList ++ _ = _
        rw [List.drop_append_of_le_length traced.counted, List.map_append, traced.tasks, buffer]
        rfl
      · change s.accessor.callbacks = _
        rw [traced.callbacks, handled, handled, List.take_append_of_le_length traced.counted]
      · change s.processed ≤ (s.performed ++ _).length
        rw [List.length_append]
        exact Nat.le_add_right_of_le traced.counted
  | @process task rest queue =>
      have tasks := traced.tasks
      have inside : s.processed < s.performed.length := by
        by_contra beyond
        rw [queue, List.drop_eq_nil_of_le (by omega)] at tasks
        cases tasks
      rw [queue, List.drop_eq_getElem_cons inside, List.map_cons] at tasks
      obtain ⟨first, later⟩ := List.cons.inj tasks
      refine ⟨traced.requests, traced.buffer, later, ?_, inside⟩
      change s.accessor.callbacks ++ _ = (s.performed.take (s.processed + 1)).filterMap _
      rw [traced.callbacks, handled, List.take_succ_eq_append_getElem inside, List.filterMap_append,
        first]
      cases called : (s.performed[s.processed].task).process <;> simp [called]

theorem traced_of_reachable (reached : sessions.Reachable s) : Traced s := by
  induction reached with
  | start initial =>
      cases initial
      exact ⟨rfl, (fun impossible => by cases impossible), rfl, rfl, le_rfl⟩
  | next _ step inductionHypothesis => exact inductionHypothesis.step step

/-! ## Bodies -/

theorem pushString_eq_iff (text : Bytes) : pushString text = text ↔ 0 ∉ text := by
  rw [pushString, List.takeWhile_eq_self_iff]
  constructor
  · intro all zero
    simpa using all 0 zero
  · intro none byte membership
    simp only [decide_eq_true_eq]
    rintro rfl
    exact none membership

/-- The callback is the promised one when there is none or the body has no zero byte. -/
theorem process_eq_promised_iff (e : Exchange) : e.task.process = e.promised ↔
    (0 < e.query.handler.funId → ∀ chunk ∈ e.chunks, (0 : UInt8) ∉ chunk) := by
  have whole : (0 : UInt8) ∉ e.chunks.flatten ↔ ∀ chunk ∈ e.chunks, (0 : UInt8) ∉ chunk := by
    simp [List.mem_flatten]
  rw [← whole, ← pushString_eq_iff, HttpTask.process, Exchange.promised]
  by_cases wanted : 0 < e.query.handler.funId
  · rw [if_pos wanted]
    change (if 0 < e.query.handler.funId then _ else _) = _ ↔ _
    rw [if_pos wanted, Option.some.injEq, Callback.mk.injEq]
    exact ⟨fun same _ => same.2.2.1, fun same => ⟨rfl, rfl, same wanted, rfl⟩⟩
  · rw [if_neg wanted]
    change (if 0 < e.query.handler.funId then _ else _) = _ ↔ _
    rw [if_neg wanted]
    exact iff_of_true rfl fun positive => absurd positive wanted

/-- Two partial maps with the same domain give the same list only if they agree on it. -/
theorem filterMap_eq_iff {First Second : Type} {f g : First → Option Second}
    (domain : ∀ a, (f a).isSome = (g a).isSome) (list : List First) :
    list.filterMap f = list.filterMap g ↔ ∀ a ∈ list, f a = g a := by
  induction list with
  | nil => exact iff_of_true rfl fun _ impossible => absurd impossible List.not_mem_nil
  | cons head rest inductionHypothesis =>
      rw [List.forall_mem_cons, ← inductionHypothesis]
      have same := domain head
      cases first : f head <;> cases second : g head <;> simp [first, second] at same ⊢

theorem isSome_process (e : Exchange) : e.task.process.isSome = e.promised.isSome := by
  rw [HttpTask.process, Exchange.promised]
  change (if 0 < e.query.handler.funId then _ else _ : Option Callback).isSome = _
  split <;> rfl

/-- The callbacks come in the order of the requests, and they are the promised ones exactly
when no chunk of a request with a callback has a zero byte. -/
theorem callbacks_promised_iff (reached : sessions.Reachable s) :
    s.handled.map Exchange.query <+: s.requested ∧
      (s.accessor.callbacks = s.handled.filterMap Exchange.promised ↔
        ∀ e ∈ s.handled, 0 < e.query.handler.funId →
          ∀ chunk ∈ e.chunks, (0 : UInt8) ∉ chunk) := by
  have traced := traced_of_reachable reached
  constructor
  · rw [traced.requests, List.append_assoc, handled, List.map_take]
    exact (List.take_prefix _ _).trans (List.prefix_append _ _)
  · rw [traced.callbacks, filterMap_eq_iff isSome_process]
    simp only [process_eq_promised_iff]

/-! ## One request -/

/-- A request whose callback is the function with number 1. -/
def index : HttpAccessorQuery :=
  { isGet := true, url := [], data := [], customHttpHead := [], handler := { funId := 1 } }

def waiting : Session :=
  { create with accessor := HttpAccessor.create.request index, requested := [index] }

def sent : Session :=
  { waiting with accessor := { HttpAccessor.create with query := some index } }

def receiving (body : Bytes) : Session :=
  { waiting with
    accessor := { HttpAccessor.create with query := some index, recvBuff := body }
    chunks := [body] }

def through (body : Bytes) : Session :=
  { receiving body with
    accessor := { HttpAccessor.create with
      recvBuff := body
      taskList := [{ handle := index.handler, isSuccess := true, recvBuff := body,
                     useTime := 20 }] }
    performed := [{ query := index, chunks := [body], isSuccess := true, useTime := 20 }] }

def answered (body : Bytes) : Session :=
  { through body with
    accessor := { HttpAccessor.create with
      recvBuff := body
      callbacks := [{ funId := 1, isSuccess := true, body := pushString body, useTime := 20 }] }
    processed := 1 }

theorem answered_reachable (body : Bytes) : sessions.Reachable (answered body) := by
  have requested : Step create (.request index) waiting := .request index
  have popped : Step waiting .pop sent := .pop rfl rfl
  have received : Step sent (.chunk body) (receiving body) := .chunk body rfl
  have performed : Step (receiving body) (.perform true 20) (through body) :=
    .perform true 20 rfl
  have processed : Step (through body) .process (answered body) :=
    @Step.process (through body) _ [] rfl
  exact .next (.next (.next (.next (.next (.start rfl) requested) popped) received) performed)
    processed

/-- A request whose callback is the function with number 2. -/
def about : HttpAccessorQuery := { index with isGet := false, handler := { funId := 2 } }

/-- The second request fails, after its body has come in two chunks. -/
theorem text_bodies_promised : ∃ s : Session,
    s.accessor.callbacks.map Callback.body = [[104, 105], [97, 98, 99]] ∧
      s.handled.map Exchange.chunks = [[[104, 105]], [[97], [98, 99]]] ∧
      s.handled.map Exchange.query <+: s.requested ∧
      (s.accessor.callbacks = s.handled.filterMap Exchange.promised ↔
        ∀ e ∈ s.handled, 0 < e.query.handler.funId → ∀ chunk ∈ e.chunks, (0 : UInt8) ∉ chunk) := by
  have requested := (answered_reachable [104, 105]).next (.request about)
  have popped := requested.next (@Step.pop _ about [] rfl rfl)
  have first := popped.next (.chunk [97] rfl)
  have second := first.next (.chunk [98, 99] rfl)
  have performed := second.next (@Step.perform _ about false 30 rfl)
  have processed := performed.next (@Step.process _ _ [] rfl)
  exact ⟨_, by decide, by decide, callbacks_promised_iff processed⟩

/-- A body with a zero byte arrives without what follows it. -/
theorem zero_byte_truncates : ¬ ∀ s, sessions.Reachable s →
    s.accessor.callbacks = s.handled.filterMap Exchange.promised := by
  intro always
  have same := always (answered [1, 0, 2]) (answered_reachable [1, 0, 2])
  exact absurd same (by decide)

end Session

end CrossOver.Engine.Http
