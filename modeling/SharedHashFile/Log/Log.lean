import SharedHashFile.ByteMemory.ByteMemory
import SharedHashFile.Transition.Reachability

namespace SharedHashFile.Log

open ByteMemory

def shfLogWriteThreshold : Nat := 64 * 1024
def shfLogDefaultSize : Nat := 64 * 1024 * 10

/-- `sizeof(shf_log_prefix)`, which is more than any `shf_log_prefix_len`. -/
def sizeofShfLogPrefix : Nat := 128

/-- `sizeof(SHF_LOG_MMAP)`, where `bytes` start: `fd`, `lock`, `time_init`, nine words, `tids` and `tid_id`. -/
def sizeofShfLogMmap : Nat := 4 + 12 + 8 + 9 * 4 + 131072 + 1

/-- The length of the value put under the key `__log`. -/
def reservedLen (logSize : Nat) : Nat := (sizeofShfLogMmap + logSize) % 2^32

def initialSize (logSize : Nat) : Nat := if logSize ≠ 0 then logSize else shfLogDefaultSize

/-- Where the log thread is; `logWork` is `bytes` from `logUsed - logLeft` on. -/
inductive ThreadPc
  /-- about to test `running` -/
  | looping
  /-- in `SHF_LOG_THREAD_WRITE` -/
  | writing (second logUsed logLeft : Nat)
  /-- about to reposition what was not written -/
  | written (second logUsed logLeft : Nat)
  /-- in `SHF_LOG_THREAD_WRITE` after the loop -/
  | draining (logUsed logLeft : Nat)
  /-- about to set the output to `stdout` -/
  | drained (logUsed logLeft : Nat)
  /-- about to count `stopped` -/
  | switched
  | ended

/-- Where a thread which logs is. -/
inductive ClientPc
  | idle
  /-- in the loop of `shf_log_append` -/
  | waiting (line : List UInt8) (prefixLen : Nat)
  /-- about to return from it, with so many lines appended before -/
  | appended (index : Nat)

/-- Where the thread which calls `shf_log_thread_del` is. -/
inductive DelPc
  | before
  /-- in the loop which waits for `stopped` -/
  | waiting
  | returned

/-- `SHF_LOG_MMAP`, what is in the log's file, and where all threads are. -/
structure LogState where
  bytes : Memory
  /-- how long the value is which they are in -/
  reserved : Nat
  /-- how many bytes of its table are mapped from the value on -/
  mapped : Nat
  used : Nat
  size : Nat
  second : Nat
  writeFail : Nat
  writing : Nat
  usedHi : Nat
  usedHiNew : Nat
  running : Nat
  stopped : Nat
  file : List UInt8
  thread : ThreadPc
  client : Nat → ClientPc
  del : DelPc
  /-- the lines appended, in the order of the lock; read by no step -/
  lines : List (List UInt8)
  /-- which of them `shf_log_append` returned for; read by no step -/
  returned : List Nat
  /-- how many there were when the log thread left its loop; read by no step -/
  kept : Nat

namespace LogState

/-- The log as `shf_log_thread_new` leaves it; what `bytes` hold is of no use. -/
def initial (logSize : Nat) (bytes : Memory) (mapped : Nat) : LogState where
  bytes := bytes
  reserved := reservedLen logSize
  mapped := mapped
  used := 0
  size := initialSize logSize
  second := 0
  writeFail := 0
  writing := 0
  usedHi := 0
  usedHiNew := 0
  running := 1
  stopped := 0
  file := []
  thread := .looping
  client _ := .idle
  del := .before
  lines := []
  returned := []
  kept := 0

variable (s : LogState)

def gotoClient (client : Nat) (pc : ClientPc) : LogState := { s with client := Function.update s.client client pc }

/-- The room which the loop of `shf_log_append` looks for is not there. -/
def NoRoom (line : List UInt8) (prefixLen : Nat) : Prop :=
  (s.size + 2^32 - s.used) % 2^32 < (prefixLen + line.length) % 2^32

instance (line : List UInt8) (prefixLen : Nat) : Decidable (s.NoRoom line prefixLen) :=
  inferInstanceAs (Decidable (_ < _))

/-- A line copied behind the others stays within what is mapped. -/
def StoresMapped (line : List UInt8) : Prop := sizeofShfLogMmap + s.used + line.length ≤ s.mapped

def store (client : Nat) (line : List UInt8) : LogState :=
  { s with
    bytes := write s.bytes s.used line
    used := (s.used + line.length) % 2^32
    lines := s.lines ++ [line]
    client := Function.update s.client client (.appended s.lines.length) }

/-- The locked part of a round of `shf_log_append`. -/
def append (client : Nat) (line : List UInt8) (prefixLen : Nat) : LogState :=
  if s.NoRoom line prefixLen then s else s.store client line

/-- The locked snapshot of the log thread's loop, and what it decides from it. -/
def snapshot (second : Nat) : LogState :=
  if 0 < s.used ∧ s.writeFail ≠ second then
    let hi := { s with
      usedHi := if s.usedHi < s.used then s.used else s.usedHi
      usedHiNew := if s.usedHi < s.used then 1 else s.usedHiNew }
    if s.second ≠ second ∨ shfLogWriteThreshold ≤ s.used then { hi with thread := .writing second s.used s.used }
    else hi
  else s

/-- `write` wrote some of the bytes left. -/
def wrote (from_ count : Nat) (thread : ThreadPc) : LogState :=
  { s with file := s.file ++ read s.bytes from_ count, writing := 1, thread := thread }

/-- The locked repositioning, if something was written, and the end of a round of the loop. -/
def reposition (second logUsed logLeft : Nat) : LogState :=
  let used := if logUsed ≠ logLeft then (logLeft + (s.used + 2^32 - logUsed) % 2^32) % 2^32 else s.used
  { s with
    used := used
    bytes := if logUsed ≠ logLeft then write s.bytes 0 (read s.bytes (logUsed - logLeft) used) else s.bytes
    writing := 0
    usedHiNew := if s.second ≠ second then 0 else s.usedHiNew
    second := second
    thread := .looping }

end LogState

inductive Event
  | call (client : Nat)
  | append (client : Nat)
  | return_ (client : Nat)
  /-- a step of the log thread -/
  | thread
  /-- a `write` of the log thread which failed, or wrote nothing -/
  | writeFailed
  | del
  /-- a put of another key -/
  | put

open LogState in
/-- One step of a thread which logs, of the log thread, of the one which ends it or of one which puts. `shf_log_append`
    can be called directly, so what the log thread sets the output to decides nothing here. An append which stores outside
    of what is mapped ends its process with the lock taken: no locked step follows it, and it is none here. -/
inductive Step : LogState → Event → LogState → Prop
  | ignore {s : LogState} {client : Nat} {line : List UInt8} (idle : s.client client = .idle)
      (long : s.size ≤ line.length) : Step s (.call client) s
  | call {s : LogState} {client prefixLen : Nat} {line : List UInt8} (idle : s.client client = .idle)
      (short : line.length < s.size) (prefixLen_lt : prefixLen < sizeofShfLogPrefix) :
      Step s (.call client) (s.gotoClient client (.waiting line prefixLen))
  | append {s : LogState} {client prefixLen : Nat} {line : List UInt8} (waits : s.client client = .waiting line prefixLen)
      (mapped : ¬ s.NoRoom line prefixLen → s.StoresMapped line) :
      Step s (.append client) (s.append client line prefixLen)
  | return_ {s : LogState} {client index : Nat} (appended : s.client client = .appended index) :
      Step s (.return_ client) ({ s with returned := s.returned ++ [index] }.gotoClient client .idle)
  | snapshot {s : LogState} (looping : s.thread = .looping) (running : s.running ≠ 0) (second : Nat) :
      Step s .thread (s.snapshot second)
  | write {s : LogState} {second logUsed logLeft count : Nat} (writing : s.thread = .writing second logUsed logLeft)
      (some_ : 0 < count) (most : count ≤ logLeft) :
      Step s .thread (s.wrote (logUsed - logLeft) count (.writing second logUsed (logLeft - count)))
  | writeEnds {s : LogState} {second logUsed : Nat} (writing : s.thread = .writing second logUsed 0) :
      Step s .thread { s with thread := .written second logUsed 0 }
  | writeRetried {s : LogState} {second logUsed logLeft : Nat} (writing : s.thread = .writing second logUsed logLeft)
      (more : 0 < logLeft) : Step s .writeFailed { s with writing := 1, thread := .written second logUsed logLeft }
  | writeThrottled {s : LogState} {second logUsed logLeft : Nat} (writing : s.thread = .writing second logUsed logLeft)
      (more : 0 < logLeft) :
      Step s .writeFailed { s with writing := 1, writeFail := second, thread := .written second logUsed logLeft }
  | reposition {s : LogState} {second logUsed logLeft : Nat} (written : s.thread = .written second logUsed logLeft) :
      Step s .thread (s.reposition second logUsed logLeft)
  | leave {s : LogState} (looping : s.thread = .looping) (stopping : s.running = 0) :
      Step s .thread { s with thread := .draining s.used s.used, kept := s.lines.length }
  | drain {s : LogState} {logUsed logLeft count : Nat} (draining : s.thread = .draining logUsed logLeft) (some_ : 0 < count)
      (most : count ≤ logLeft) :
      Step s .thread (s.wrote (logUsed - logLeft) count (.draining logUsed (logLeft - count)))
  | drainEnds {s : LogState} {logUsed : Nat} (draining : s.thread = .draining logUsed 0) :
      Step s .thread { s with thread := .drained logUsed 0 }
  | drainFails {s : LogState} {logUsed logLeft : Nat} (draining : s.thread = .draining logUsed logLeft) (more : 0 < logLeft) :
      Step s .writeFailed { s with writing := 1, thread := .drained logUsed logLeft }
  | drainThrottled {s : LogState} {logUsed logLeft : Nat} (draining : s.thread = .draining logUsed logLeft)
      (more : 0 < logLeft) :
      Step s .writeFailed { s with writing := 1, writeFail := 0, thread := .drained logUsed logLeft }
  | switch {s : LogState} {logUsed logLeft : Nat} (drained : s.thread = .drained logUsed logLeft) :
      Step s .thread { s with thread := .switched }
  | stop {s : LogState} (switched : s.thread = .switched) :
      Step s .thread { s with stopped := (s.stopped + 1) % 2^32, thread := .ended }
  | delStarts {s : LogState} (before : s.del = .before) (running : s.running ≠ 0) :
      Step s .del { s with running := 0, del := .waiting }
  | delEnds {s : LogState} (waiting : s.del = .waiting) (stopped : s.stopped ≠ 0) :
      Step s .del { s with del := .returned }
  -- a record takes what it likes of its table, but nothing of the value
  | put {s : LogState} (bytes : Memory) (kept : ∀ index, sizeofShfLogMmap + index < s.reserved → bytes index = s.bytes index) :
      Step s .put { s with bytes := bytes }

/-- States of runs all of whose steps are allowed; a table has less than 2^32 bytes. -/
def Reachable (logSize : Nat) (allowed : LogState → Event → Prop) : LogState → Prop :=
  Transition.Reachable (fun s => ∃ bytes mapped, mapped < 2^32 ∧ s = LogState.initial logSize bytes mapped) fun s t =>
    ∃ event, allowed s event ∧ Step s event t

end SharedHashFile.Log
