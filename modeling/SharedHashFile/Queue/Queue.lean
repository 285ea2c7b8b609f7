import Mathlib.Algebra.Group.Nat.Defs
import Mathlib.Logic.Function.Basic
import SharedHashFile.LinkedList.Chain

namespace SharedHashFile.Queue

def qidNone : Nat := 4294967295
def qiidNone : Nat := 4294967295

/-- `SHF_QID_MMAP`. -/
structure Qid where
  head : Nat
  tail : Nat
  size : Nat

/-- `SHF_QIID_MMAP`. -/
structure Qiid where
  last : Nat
  next : Nat

def emptyQid : Qid := ⟨qiidNone, qiidNone, 0⟩

def setLast (qiids : Nat → Qiid) (qiid last : Nat) : Nat → Qiid :=
  Function.update qiids qiid { qiids qiid with last := last }

def setNext (qiids : Nat → Qiid) (qiid next : Nat) : Nat → Qiid :=
  Function.update qiids qiid { qiids qiid with next := next }

/-- 32-bit arguments which pass the assertions of `shf_q_new`. -/
structure Params where
  qs : Nat
  qItems : Nat
  qItemSize : Nat
  qidsNolockMax : Nat
  qs_gt : 2 < qs
  qItems_gt : 1 < qItems
  qidsNolockMax_pos : 0 < qidsNolockMax
  qidsNolockMax_lt : qidsNolockMax < qItems
  qItemSize_ge : 9 ≤ qItemSize
  qs_lt : qs < 2^32
  qItems_lt : qItems < 2^32
  qItemSize_lt : qItemSize < 2^32

/-- The part of `SHF_Q` one process works on: two arrays in shared memory, two of its own. -/
structure View where
  qids : Nat → Qid
  qiids : Nat → Qiid
  qidsNolockPush : Nat → Qid
  qidsNolockPull : Nat → Qid

/-- The arrays as `shf_q_new` leaves them: every item in queue 0. -/
def shfQNew (params : Params) : View where
  qids := Function.update (fun _ => emptyQid) 0 ⟨params.qItems - 1, 0, params.qItems⟩
  qiids := setNext (setLast (fun i => ⟨i - 1, i + 1⟩) 0 qidNone) (params.qItems - 1) qidNone
  qidsNolockPush := fun _ => emptyQid
  qidsNolockPull := fun _ => emptyQid

/-- The push part of `shf_q_push_head` and `shf_q_push_head_pull_tail`. -/
def pushNolock (v : View) (pushQid pushQiid : Nat) : View :=
  let qid := v.qidsNolockPush pushQid
  let qiidLast := qid.head
  let qiids := setNext (setLast v.qiids pushQiid qiidLast) pushQiid qiidNone
  { v with
    qidsNolockPush := Function.update v.qidsNolockPush pushQid
      { head := pushQiid
        tail := if qiidLast = qiidNone then pushQiid else qid.tail
        size := qid.size + 1 }
    qiids := if qiidLast = qiidNone then qiids else setNext qiids qiidLast pushQiid }

/-- The pull part of `shf_q_pull_tail` and `shf_q_push_head_pull_tail` on a queue which is not
    empty. -/
def pullNolock (v : View) (pullQid : Nat) : Nat × View :=
  let qid := v.qidsNolockPull pullQid
  let pullQiid := qid.tail
  let qiidNext := (v.qiids pullQiid).next
  (pullQiid,
    { v with
      qidsNolockPull := Function.update v.qidsNolockPull pullQid
        { head := if qiidNext = qiidNone then qiidNone else qid.head
          tail := qiidNext
          size := qid.size - 1 }
      qiids := if qiidNext = qiidNone then v.qiids else setLast v.qiids qiidNext qiidNone })

/-- One round of the first loop of `shf_q_flush`. -/
def emptyNolockPush (v : View) (pushQid : Nat) : View :=
  if 0 < (v.qidsNolockPush pushQid).size then
    let qiidThisTail := (v.qidsNolockPush pushQid).tail
    let qiidThisHead := (v.qidsNolockPush pushQid).head
    let qiidLast := (v.qids pushQid).head
    let qiids := setNext (setLast v.qiids qiidThisTail qiidLast) qiidThisHead qiidNone
    { v with
      qids := Function.update v.qids pushQid
        { head := qiidThisHead
          tail := if qiidLast = qiidNone then qiidThisTail else (v.qids pushQid).tail
          size := (v.qids pushQid).size + (v.qidsNolockPush pushQid).size }
      qiids := if qiidLast = qiidNone then qiids else setNext qiids qiidLast qiidThisTail
      qidsNolockPush := Function.update v.qidsNolockPush pushQid emptyQid }
  else v

def qiidsToPullMax (params : Params) (v : View) (pullQid : Nat) : Nat :=
  if (v.qidsNolockPull pullQid).size < params.qidsNolockMax then
    params.qidsNolockMax - (v.qidsNolockPull pullQid).size else 0

def qiidsToPull (params : Params) (v : View) (pullQid : Nat) : Nat :=
  if (v.qids pullQid).size < qiidsToPullMax params v pullQid then (v.qids pullQid).size
  else qiidsToPullMax params v pullQid

/-- The second part of `shf_q_flush`. -/
def fillNolockPull (params : Params) (v : View) (pullQid : Nat) : View :=
  let toPull := qiidsToPull params v pullQid
  if 0 < toPull then
    let qiidThisTail := (v.qids pullQid).tail
    let qiidThisHead := LinkedList.follow (fun i => (v.qiids i).next) qiidThisTail (toPull - 1)
    let qiidLastNolock := (v.qidsNolockPull pullQid).head
    let qiidNextLocked := (v.qiids qiidThisHead).next
    let qiids := setNext (setLast v.qiids qiidThisTail qiidLastNolock) qiidThisHead qiidNone
    let left := (v.qids pullQid).size - toPull
    { v with
      qidsNolockPull := Function.update v.qidsNolockPull pullQid
        { head := qiidThisHead
          tail := if qiidLastNolock = qiidNone then qiidThisTail
            else (v.qidsNolockPull pullQid).tail
          size := (v.qidsNolockPull pullQid).size + toPull }
      qiids := if qiidLastNolock = qiidNone then qiids else setNext qiids qiidLastNolock qiidThisTail
      qids := Function.update v.qids pullQid
        { head := if left = 0 then qiidNone else (v.qids pullQid).head
          tail := if left = 0 then qiidNone else qiidNextLocked
          size := left } }
  else v

/-- The body of `shf_q_flush` between locking and unlocking `q_lock`. -/
def shfQFlush (params : Params) (v : View) (pullQid : Nat) : View :=
  let v := (List.range params.qs).foldl emptyNolockPush v
  if pullQid = qidNone then v else fillNolockPull params v pullQid

/-- What a process does next. -/
inductive Pc
  | idle
  /-- about to call `shf_q_flush`, and whether to pull after it -/
  | flushing (pullQid : Nat) (pulls : Bool)
  /-- past the flush of a pulling call -/
  | pulling (pullQid : Nat)
  deriving DecidableEq

structure Process where
  qidsNolockPush : Nat → Qid
  qidsNolockPull : Nat → Qid
  /-- the items the process pulled and has not pushed since -/
  held : List Nat
  pc : Pc
  shfQiid : Nat
  /-- offset from `q_item_addr`; `none` is `NULL` -/
  shfQiidAddr : Option Nat
  shfQiidAddrLen : Nat

/-- All processes attached to one queue set. -/
structure QState where
  qids : Nat → Qid
  qiids : Nat → Qiid
  process : Nat → Process

namespace QState

def view (s : QState) (p : Nat) : View where
  qids := s.qids
  qiids := s.qiids
  qidsNolockPush := (s.process p).qidsNolockPush
  qidsNolockPull := (s.process p).qidsNolockPull

def update (s : QState) (p : Nat) (v : View) (held : List Nat) (pc : Pc) : QState where
  qids := v.qids
  qiids := v.qiids
  process := Function.update s.process p
    { s.process p with
      qidsNolockPush := v.qidsNolockPush
      qidsNolockPull := v.qidsNolockPull
      held := held
      pc := pc }

def setQiid (s : QState) (p qiid : Nat) (addr : Option Nat) (len : Nat) : QState :=
  { s with
    process := Function.update s.process p
      { s.process p with shfQiid := qiid, shfQiidAddr := addr, shfQiidAddrLen := len } }

/-- After `shf_q_new` in one process and `shf_q_get` in the others. -/
def initial (params : Params) : QState where
  qids := (shfQNew params).qids
  qiids := (shfQNew params).qiids
  process _ :=
    { qidsNolockPush := (shfQNew params).qidsNolockPush
      qidsNolockPull := (shfQNew params).qidsNolockPull
      held := []
      pc := .idle
      shfQiid := 0
      shfQiidAddr := some 0
      shfQiidAddrLen := params.qItemSize * params.qItems % 2^32 }

/-- The local part of a call which pushes `qiid`. -/
def push (s : QState) (p pushQid qiid : Nat) (pc : Pc) : QState :=
  s.update p (pushNolock (s.view p) pushQid qiid) ((s.process p).held.erase qiid) pc

def goto (s : QState) (p : Nat) (pc : Pc) : QState :=
  s.update p (s.view p) (s.process p).held pc

/-- Next place of `shf_q_push_head`, whose push queue is full or not. -/
def afterPush (params : Params) (v : View) (pushQid : Nat) : Pc :=
  if params.qidsNolockMax ≤ (v.qidsNolockPush pushQid).size then .flushing qidNone false else .idle

/-- Next place of `shf_q_pull_tail`. -/
def beforePull (v : View) (pullQid : Nat) : Pc :=
  if (v.qidsNolockPull pullQid).size = 0 then .flushing pullQid true else .pulling pullQid

/-- Next place of `shf_q_push_head_pull_tail` after its push. -/
def betweenPushPull (params : Params) (v : View) (pushQid pullQid : Nat) : Pc :=
  if params.qidsNolockMax ≤ (v.qidsNolockPush pushQid).size ∨ (v.qidsNolockPull pullQid).size = 0 then
    .flushing pullQid true else .pulling pullQid

end QState

inductive Event
  /-- an item pushed, by a call which goes on to pull from `pullQid` unless that is none -/
  | pushed (p qid qiid pullQid : Nat)
  /-- a call without an item to push, which is to pull or to flush from `pullQid` -/
  | called (p pullQid : Nat)
  | flushed (p pullQid : Nat)
  | pulled (p qid qiid : Nat)
  /-- a pull returned `SHF_QIID_NONE` -/
  | pulledNone (p qid : Nat)
  deriving DecidableEq

open QState in
/-- One step of one process: the local part of a call or the locked body of `shf_q_flush`. A
    process pushes only what it holds, and calls with queues the set has, as the assertions of
    the debug build demand. -/
inductive Step (params : Params) : QState → Event → QState → Prop
  | pushHead {s : QState} {p pushQid qiid : Nat} (idle : (s.process p).pc = .idle)
      (queue : pushQid < params.qs) (mine : qiid ∈ (s.process p).held) :
      Step params s (.pushed p pushQid qiid qidNone)
        (s.push p pushQid qiid (afterPush params (pushNolock (s.view p) pushQid qiid) pushQid))
  | pullTail {s : QState} {p pullQid : Nat} (idle : (s.process p).pc = .idle)
      (queue : pullQid < params.qs) :
      Step params s (.called p pullQid) (s.goto p (beforePull (s.view p) pullQid))
  | pushHeadPullTail {s : QState} {p pushQid qiid pullQid : Nat} (idle : (s.process p).pc = .idle)
      (pushQueue : pushQid < params.qs) (pullQueue : pullQid < params.qs)
      (mine : qiid ∈ (s.process p).held) :
      Step params s (.pushed p pushQid qiid pullQid)
        (s.push p pushQid qiid
          (betweenPushPull params (pushNolock (s.view p) pushQid qiid) pushQid pullQid))
  | pushNonePullTail {s : QState} {p pushQid pullQid : Nat} (idle : (s.process p).pc = .idle)
      (pushQueue : pushQid < params.qs) (pullQueue : pullQid < params.qs) :
      Step params s (.called p pullQid) (s.goto p (betweenPushPull params (s.view p) pushQid pullQid))
  | callFlush {s : QState} {p pullQid : Nat} (idle : (s.process p).pc = .idle)
      (queue : pullQid < params.qs ∨ pullQid = qidNone) :
      Step params s (.called p pullQid) (s.goto p (.flushing pullQid false))
  | flush {s : QState} {p pullQid : Nat} {pulls : Bool}
      (position : (s.process p).pc = .flushing pullQid pulls) :
      Step params s (.flushed p pullQid)
        (s.update p (shfQFlush params (s.view p) pullQid) (s.process p).held
          (if pulls then .pulling pullQid else .idle))
  | pull {s : QState} {p pullQid : Nat} (position : (s.process p).pc = .pulling pullQid)
      (some_ : ((s.view p).qidsNolockPull pullQid).size ≠ 0) :
      Step params s (.pulled p pullQid (pullNolock (s.view p) pullQid).1)
        ((s.update p (pullNolock (s.view p) pullQid).2
            ((pullNolock (s.view p) pullQid).1 :: (s.process p).held) .idle).setQiid p
          (pullNolock (s.view p) pullQid).1
          (some ((pullNolock (s.view p) pullQid).1 * params.qItemSize % 2^32)) params.qItemSize)
  | pullNone {s : QState} {p pullQid : Nat} (position : (s.process p).pc = .pulling pullQid)
      (none_ : ((s.view p).qidsNolockPull pullQid).size = 0) :
      Step params s (.pulledNone p pullQid) ((s.goto p .idle).setQiid p qiidNone none 0)

inductive Run (params : Params) : List Event → QState → Prop
  | start : Run params [] (QState.initial params)
  | next {events : List Event} {event : Event} {s t : QState} :
      Run params events s → Step params s event t → Run params (events ++ [event]) t

end SharedHashFile.Queue
