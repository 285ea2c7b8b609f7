import SharedHashFile.Log.Stream

namespace SharedHashFile.Log

open ByteMemory

def ThreadPc.Left : ThreadPc → Prop
  | .looping | .writing _ _ _ | .written _ _ _ => False
  | .draining _ _ | .drained _ _ | .switched | .ended => True

namespace LogState

structure Keeps (s : LogState) (logUsed logLeft : Nat) : Prop where
  running : s.stopped = 0
  left : logLeft ≤ logUsed
  used : logUsed ≤ s.used
  kept : s.kept ≤ s.lines.length
  stream : s.file ++ read s.bytes (logUsed - logLeft) logLeft = (s.lines.take s.kept).flatten

structure Kept (s : LogState) : Prop where
  kept : s.kept ≤ s.lines.length
  stream : s.file = (s.lines.take s.kept).flatten

def Closing (s : LogState) : Prop :=
  match s.thread with
  | .looping | .writing _ _ _ | .written _ _ _ => s.stopped = 0
  | .draining logUsed logLeft => s.Keeps logUsed logLeft
  | .drained _ _ | .switched => s.stopped = 0 ∧ s.Kept
  | .ended => s.Kept

/-- The calls of `shf_log_append` which returned, or are about to, appended a line. -/
structure Answered (s : LogState) : Prop where
  appended : ∀ client index, s.client client = .appended index → index < s.lines.length
  returned : ∀ index ∈ s.returned, index < s.lines.length ∧ (s.thread.Left → index < s.kept)

end LogState

section Closing

variable {s t : LogState} {client prefixLen second logUsed logLeft count : Nat} {line : List UInt8}

theorem LogState.Keeps.congr (keeps : s.Keeps logUsed logLeft) (file : t.file = s.file) (bytes : t.bytes = s.bytes)
    (used : t.used = s.used) (lines : t.lines = s.lines) (kept : t.kept = s.kept) (stopped : t.stopped = s.stopped) :
    t.Keeps logUsed logLeft := by
  constructor
  · exact stopped.trans keeps.running
  · exact keeps.left
  · rw [used]
    exact keeps.used
  · rw [kept, lines]
    exact keeps.kept
  · rw [file, bytes, lines, kept]
    exact keeps.stream

theorem LogState.Kept.congr (done : s.Kept) (file : t.file = s.file) (lines : t.lines = s.lines)
    (kept : t.kept = s.kept) : t.Kept := by
  constructor
  · rw [kept, lines]
    exact done.kept
  · rw [file, lines, kept]
    exact done.stream

/-- A state in which the log thread is where it was, by what holds wherever that is. -/
theorem LogState.Closing.moved (closing : s.Closing) (thread : t.thread = s.thread) (stopped : t.stopped = s.stopped)
    (keeps : ∀ logUsed logLeft, s.Keeps logUsed logLeft → t.Keeps logUsed logLeft) (done : s.Kept → t.Kept) :
    t.Closing := by
  unfold Closing at closing ⊢
  rw [thread]
  split at closing
  · exact stopped.trans closing
  · exact stopped.trans closing
  · exact stopped.trans closing
  · exact keeps _ _ closing
  · exact ⟨stopped.trans closing.1, done closing.2⟩
  · exact ⟨stopped.trans closing.1, done closing.2⟩
  · exact done closing

theorem LogState.Closing.congr (closing : s.Closing) (thread : t.thread = s.thread) (file : t.file = s.file)
    (bytes : t.bytes = s.bytes) (used : t.used = s.used) (lines : t.lines = s.lines) (kept : t.kept = s.kept)
    (stopped : t.stopped = s.stopped) : t.Closing :=
  closing.moved thread stopped (fun _ _ keeps => keeps.congr file bytes used lines kept stopped)
    fun done => done.congr file lines kept

theorem take_append_line {kept : Nat} {lines : List (List UInt8)} (le : kept ≤ lines.length) :
    (lines ++ [line]).take kept = lines.take kept := List.take_append_of_le_length le

theorem LogState.Keeps.store (keeps : s.Keeps logUsed logLeft) (small : s.used + line.length < 2^32) :
    (s.store client line).Keeps logUsed logLeft := by
  have below := keeps.left
  have used := keeps.used
  constructor
  · exact keeps.running
  · exact keeps.left
  · change logUsed ≤ (s.used + line.length) % 2^32
    omega
  · change s.kept ≤ (s.lines ++ [line]).length
    rw [List.length_append]
    exact Nat.le_add_right_of_le keeps.kept
  · change s.file ++ read (write s.bytes s.used line) (logUsed - logLeft) logLeft = ((s.lines ++ [line]).take s.kept).flatten
    rw [take_append_line keeps.kept, read_write_apart (.inl (by omega))]
    exact keeps.stream

theorem LogState.Kept.store (done : s.Kept) : (s.store client line).Kept := by
  constructor
  · change s.kept ≤ (s.lines ++ [line]).length
    rw [List.length_append]
    exact Nat.le_add_right_of_le done.kept
  · change s.file = ((s.lines ++ [line]).take s.kept).flatten
    rw [take_append_line done.kept]
    exact done.stream

theorem LogState.Keeps.wrote (keeps : s.Keeps logUsed logLeft) (most : count ≤ logLeft) (thread : ThreadPc) :
    (s.wrote (logUsed - logLeft) count thread).Keeps logUsed (logLeft - count) := by
  have below := keeps.left
  constructor
  · exact keeps.running
  · omega
  · exact keeps.used
  · exact keeps.kept
  · change (s.file ++ read s.bytes (logUsed - logLeft) count) ++ read s.bytes (logUsed - (logLeft - count)) (logLeft - count) =
      (s.lines.take s.kept).flatten
    rw [List.append_assoc, show logUsed - (logLeft - count) = (logUsed - logLeft) + count by omega, ← read_append,
      show count + (logLeft - count) = logLeft by omega]
    exact keeps.stream

theorem LogState.Streaming.keeps (streaming : s.Streaming) (looping : s.thread = .looping) (running : s.stopped = 0) :
    { s with thread := .draining s.used s.used, kept := s.lines.length }.Keeps s.used s.used := by
  unfold Streaming at streaming
  rw [looping] at streaming
  refine ⟨running, Nat.le_refl _, Nat.le_refl _, Nat.le_refl _, ?_⟩
  change s.file ++ read s.bytes (s.used - s.used) s.used = (s.lines.take s.lines.length).flatten
  rw [Nat.sub_self, List.take_length]
  exact streaming.stream

theorem LogState.Keeps.put {bytes : Memory} (keeps : s.Keeps logUsed logLeft) (bounded : s.Bounded)
    (apart : sizeofShfLogMmap + s.size ≤ s.reserved)
    (kept : ∀ index, sizeofShfLogMmap + index < s.reserved → bytes index = s.bytes index) :
    { s with bytes := bytes }.Keeps logUsed logLeft := by
  have left := keeps.left
  have used := keeps.used
  refine ⟨keeps.running, left, used, keeps.kept, ?_⟩
  change s.file ++ read bytes (logUsed - logLeft) logLeft = (s.lines.take s.kept).flatten
  rw [read_put bounded apart kept (by omega)]
  exact keeps.stream

end Closing

section Answering

variable {s t : LogState} {client second : Nat} {line : List UInt8}

theorem LogState.Answered.congr (answered : s.Answered) (client : t.client = s.client) (lines : t.lines = s.lines)
    (returned : t.returned = s.returned) (kept : t.kept = s.kept) (left : t.thread.Left → s.thread.Left) : t.Answered := by
  constructor
  · rw [client, lines]
    exact answered.appended
  · rw [returned, lines, kept]
    exact fun index member => ⟨(answered.returned index member).1, (answered.returned index member).2 ∘ left⟩

theorem LogState.Answered.store (answered : s.Answered) : (s.store client line).Answered := by
  have longer : s.lines.length < (s.lines ++ [line]).length := by
    rw [List.length_append, List.length_singleton]
    exact Nat.lt_succ_self _
  constructor
  · intro other index appended
    change Function.update s.client client (.appended s.lines.length) other = _ at appended
    by_cases same : other = client
    · subst same
      rw [Function.update_self] at appended
      cases appended
      exact longer
    · rw [Function.update_of_ne same] at appended
      exact (answered.appended other index appended).trans longer
  · intro index member
    rcases answered.returned index member with ⟨before, kept⟩
    exact ⟨before.trans longer, kept⟩

theorem LogState.Answered.gotoClient (answered : s.Answered) {pc : ClientPc} (other : ∀ index, pc ≠ .appended index) :
    (s.gotoClient client pc).Answered := by
  constructor
  · intro some_ index appended
    change Function.update s.client client pc some_ = _ at appended
    by_cases same : some_ = client
    · subst same
      rw [Function.update_self] at appended
      exact absurd appended (other index)
    · rw [Function.update_of_ne same] at appended
      exact answered.appended some_ index appended
  · exact answered.returned

theorem LogState.Answered.return_ {index : Nat} (answered : s.Answered) (appended : s.client client = .appended index)
    (inTime : s.thread.Left → index < s.kept) : { s with returned := s.returned ++ [index] }.Answered := by
  constructor
  · exact answered.appended
  · intro some_ member
    rcases List.mem_append.mp member with before | last
    · exact answered.returned some_ before
    · cases List.mem_singleton.mp last
      exact ⟨answered.appended client index appended, inTime⟩

end Answering

section Examples

variable {logSize : Nat} {allowed : LogState → Event → Prop} {s : LogState}

def LogState.leaving (s : LogState) : LogState :=
  { s with running := 0, del := .waiting, thread := .draining s.used s.used, kept := s.lines.length }

def LogState.stopping (s : LogState) : LogState := { s with stopped := (s.stopped + 1) % 2^32, thread := .ended }

theorem Reachable.leaving (reachable : Reachable logSize allowed s) (dels : allowed s .del)
    (leaves : allowed { s with running := 0, del := .waiting } .thread) (looping : s.thread = .looping)
    (before : s.del = .before) (running : s.running ≠ 0) : Reachable logSize allowed s.leaving :=
  (reachable.then dels (.delStarts before running)).then leaves (.leave looping rfl)

theorem Reachable.stopping {logUsed : Nat} (reachable : Reachable logSize allowed s)
    (goes : ∀ s, allowed s .thread) (draining : s.thread = .draining logUsed 0) : Reachable logSize allowed s.stopping :=
  ((reachable.then (goes _) (.drainEnds draining)).then (goes _) (.switch rfl)).then (goes _) (.stop rfl)

end Examples

end SharedHashFile.Log
