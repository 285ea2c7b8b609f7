import SharedHashFile.Log.Log

namespace SharedHashFile.Log

open ByteMemory

namespace LogState

structure Streams (s : LogState) (from_ : Nat) : Prop where
  low : from_ ≤ s.used
  stream : s.file ++ read s.bytes from_ (s.used - from_) = s.lines.flatten

/-- Nothing is lost, duplicated, reordered or torn while the loop of the log thread runs. -/
def Streaming (s : LogState) : Prop :=
  match s.thread with
  | .looping => s.Streams 0
  | .writing _ logUsed logLeft | .written _ logUsed logLeft => s.Streams (logUsed - logLeft)
  | _ => True

def Waiting (s : LogState) : Prop :=
  ∀ client line prefixLen, s.client client = .waiting line prefixLen →
    line.length < s.size ∧ prefixLen < sizeofShfLogPrefix

def Shown (s : LogState) : Prop :=
  match s.thread with
  | .writing _ logUsed logLeft | .written _ logUsed logLeft => logLeft ≤ logUsed ∧ logUsed ≤ s.used
  | _ => True

structure Bounded (s : LogState) : Prop where
  used_le : s.used ≤ s.size
  size_lt : s.size < 2^32
  mapped_lt : s.mapped < 2^32
  shown : s.Shown

end LogState

theorem initialSize_lt {logSize : Nat} (logSize_lt : logSize < 2^32) : initialSize logSize < 2^32 := by
  unfold initialSize
  split
  · exact logSize_lt
  · decide

section Appending

variable {s : LogState} {client prefixLen from_ : Nat} {line : List UInt8}

theorem unwrapped (bounded : s.Bounded) (prefixLen_lt : prefixLen < sizeofShfLogPrefix) (mapped : s.StoresMapped line) :
    prefixLen + line.length < 2^32 := by
  have mapped_lt := bounded.mapped_lt
  have header : sizeofShfLogPrefix ≤ sizeofShfLogMmap := by decide
  unfold LogState.StoresMapped at mapped
  omega

theorem room (bounded : s.Bounded) (unwrapped : prefixLen + line.length < 2^32) (room : ¬ s.NoRoom line prefixLen) :
    s.used + (prefixLen + line.length) ≤ s.size := by
  rcases bounded with ⟨used_le, size_lt, _, _⟩
  unfold LogState.NoRoom at room
  rw [Nat.mod_eq_of_lt unwrapped] at room
  omega

theorem append_none (none_ : s.NoRoom line prefixLen) : s.append client line prefixLen = s := if_pos none_

theorem append_room (room : ¬ s.NoRoom line prefixLen) : s.append client line prefixLen = s.store client line := if_neg room

theorem append_cases (s : LogState) (client : Nat) (line : List UInt8) (prefixLen : Nat) :
    s.append client line prefixLen = s ∨ s.append client line prefixLen = s.store client line := by
  by_cases none_ : s.NoRoom line prefixLen
  · exact .inl (append_none none_)
  · exact .inr (append_room none_)

theorem LogState.Streams.append (streams : s.Streams from_) (small : s.used + line.length < 2^32)
    (room : ¬ s.NoRoom line prefixLen) : (s.append client line prefixLen).Streams from_ := by
  rcases streams with ⟨low, stream⟩
  rw [append_room room]
  constructor
  · change from_ ≤ (s.used + line.length) % 2^32
    omega
  · change s.file ++ read (write s.bytes s.used line) from_ ((s.used + line.length) % 2^32 - from_) =
      (s.lines ++ [line]).flatten
    rw [Nat.mod_eq_of_lt small, show s.used + line.length - from_ = (s.used - from_) + line.length by omega, read_append,
      read_write_apart (.inl (by omega)), show from_ + (s.used - from_) = s.used by omega, read_write_same, ← List.append_assoc,
      stream, List.flatten_append, List.flatten_singleton]

theorem LogState.Streams.congr {t : LogState} (streams : s.Streams from_) (file : t.file = s.file)
    (bytes : t.bytes = s.bytes) (used : t.used = s.used) (lines : t.lines = s.lines) : t.Streams from_ := by
  rcases streams with ⟨low, stream⟩
  constructor
  · rw [used]
    exact low
  · rw [file, bytes, used, lines]
    exact stream

theorem LogState.Streaming.congr {t : LogState} (streaming : s.Streaming) (thread : t.thread = s.thread)
    (file : t.file = s.file) (bytes : t.bytes = s.bytes) (used : t.used = s.used) (lines : t.lines = s.lines) :
    t.Streaming := by
  unfold Streaming at streaming ⊢
  rw [thread]
  split at streaming
  · exact streaming.congr file bytes used lines
  · exact streaming.congr file bytes used lines
  · exact streaming.congr file bytes used lines
  · trivial

theorem append_used (room : ¬ s.NoRoom line prefixLen) :
    (s.append client line prefixLen).used = (s.used + line.length) % 2^32 := by
  rw [append_room room]
  rfl

theorem append_thread : (s.append client line prefixLen).thread = s.thread := by
  rcases append_cases s client line prefixLen with same | stored
  · rw [same]
  · rw [stored]
    rfl

theorem append_rest : (s.append client line prefixLen).size = s.size ∧ (s.append client line prefixLen).mapped = s.mapped := by
  rcases append_cases s client line prefixLen with same | stored
  · rw [same]
    exact ⟨rfl, rfl⟩
  · rw [stored]
    exact ⟨rfl, rfl⟩

theorem LogState.Streaming.moved {t : LogState} (streaming : s.Streaming) (thread : t.thread = s.thread)
    (streams : ∀ from_, s.Streams from_ → t.Streams from_) : t.Streaming := by
  unfold Streaming at streaming ⊢
  rw [thread]
  split at streaming
  · exact streams _ streaming
  · exact streams _ streaming
  · exact streams _ streaming
  · trivial

theorem LogState.Shown.moved {t : LogState} (shown : s.Shown) (thread : t.thread = s.thread) (used : s.used ≤ t.used) :
    t.Shown := by
  unfold Shown at shown ⊢
  rw [thread]
  split at shown
  · exact ⟨shown.1, Nat.le_trans shown.2 used⟩
  · exact ⟨shown.1, Nat.le_trans shown.2 used⟩
  · trivial

theorem stored_fits (bounded : s.Bounded) (prefixLen_lt : prefixLen < sizeofShfLogPrefix)
    (mapped : ¬ s.NoRoom line prefixLen → s.StoresMapped line) (enough : ¬ s.NoRoom line prefixLen) :
    s.used + line.length ≤ s.size := by
  have fits := room bounded (unwrapped bounded prefixLen_lt (mapped enough)) enough
  omega

theorem append_bounded (bounded : s.Bounded) (prefixLen_lt : prefixLen < sizeofShfLogPrefix)
    (mapped : ¬ s.NoRoom line prefixLen → s.StoresMapped line) : (s.append client line prefixLen).Bounded := by
  by_cases none_ : s.NoRoom line prefixLen
  · rw [append_none none_]
    exact bounded
  · have fits := stored_fits bounded prefixLen_lt mapped none_
    have size_lt := bounded.size_lt
    have used := (@append_used s client prefixLen line none_).trans (Nat.mod_eq_of_lt (by omega))
    rcases @append_rest s client prefixLen line with ⟨size, mapped_eq⟩
    constructor
    · rw [used, size]
      exact fits
    · rw [size]
      exact size_lt
    · rw [mapped_eq]
      exact bounded.mapped_lt
    · refine bounded.shown.moved append_thread ?_
      rw [used]
      exact Nat.le_add_right _ _

end Appending

section Writing

variable {s : LogState} {second logUsed logLeft count from_ : Nat} {thread : ThreadPc}

theorem snapshot_same : (s.snapshot second).file = s.file ∧ (s.snapshot second).bytes = s.bytes ∧
    (s.snapshot second).used = s.used ∧ (s.snapshot second).lines = s.lines ∧ (s.snapshot second).size = s.size ∧
    ((s.snapshot second).thread = s.thread ∨ (s.snapshot second).thread = .writing second s.used s.used) := by
  unfold LogState.snapshot
  split
  · dsimp only
    split
    · exact ⟨rfl, rfl, rfl, rfl, rfl, .inr rfl⟩
    · exact ⟨rfl, rfl, rfl, rfl, rfl, .inl rfl⟩
  · exact ⟨rfl, rfl, rfl, rfl, rfl, .inl rfl⟩

theorem snapshot_mapped : (s.snapshot second).mapped = s.mapped := by
  unfold LogState.snapshot
  split
  · dsimp only
    split <;> rfl
  · rfl

theorem snapshot_client : (s.snapshot second).client = s.client := by
  unfold LogState.snapshot
  split
  · dsimp only
    split <;> rfl
  · rfl

theorem LogState.Streams.wrote (streams : s.Streams from_) (most : from_ + count ≤ s.used) :
    (s.wrote from_ count thread).Streams (from_ + count) := by
  rcases streams with ⟨low, stream⟩
  constructor
  · exact most
  · change (s.file ++ read s.bytes from_ count) ++ read s.bytes (from_ + count) (s.used - (from_ + count)) = s.lines.flatten
    rw [List.append_assoc, ← read_append, show count + (s.used - (from_ + count)) = s.used - from_ by omega]
    exact stream

theorem reposition_used (left : logLeft ≤ logUsed) (some_ : logUsed ≤ s.used) (bounded : s.Bounded) :
    (s.reposition second logUsed logLeft).used = s.used - (logUsed - logLeft) := by
  have size_lt := bounded.size_lt
  have used_le := bounded.used_le
  change (if logUsed ≠ logLeft then _ else _) = _
  split <;> omega

theorem LogState.Streams.reposition (left : logLeft ≤ logUsed) (some_ : logUsed ≤ s.used) (bounded : s.Bounded)
    (streams : s.Streams (logUsed - logLeft)) : (s.reposition second logUsed logLeft).Streams 0 := by
  have used := @reposition_used s second logUsed logLeft left some_ bounded
  refine ⟨Nat.zero_le _, ?_⟩
  rw [Nat.sub_zero, used]
  have stream := streams.stream
  have used_eq : (if logUsed ≠ logLeft then (logLeft + (s.used + 2^32 - logUsed) % 2^32) % 2^32 else s.used) =
      s.used - (logUsed - logLeft) := used
  change s.file ++ read (if logUsed ≠ logLeft then write s.bytes 0 (read s.bytes (logUsed - logLeft)
    (if logUsed ≠ logLeft then (logLeft + (s.used + 2^32 - logUsed) % 2^32) % 2^32 else s.used)) else s.bytes) 0 _ =
    s.lines.flatten
  rw [used_eq]
  split
  · rw [read_write_of_length _ _ (read_length _ _ _)]
    exact stream
  · rename_i same
    rw [not_not.mp same, Nat.sub_self] at stream ⊢
    exact stream

end Writing

section Putting

variable {s : LogState} {bytes : Memory} {from_ : Nat}

theorem read_put (bounded : s.Bounded) (apart : sizeofShfLogMmap + s.size ≤ s.reserved)
    (kept : ∀ index, sizeofShfLogMmap + index < s.reserved → bytes index = s.bytes index) {count : Nat}
    (inside : from_ + count ≤ s.used) : read bytes from_ count = read s.bytes from_ count := by
  have used_le := bounded.used_le
  apply read_congr
  intro index _ index_lt
  exact kept index (by omega)

theorem LogState.Streams.put (streams : s.Streams from_) (bounded : s.Bounded)
    (apart : sizeofShfLogMmap + s.size ≤ s.reserved)
    (kept : ∀ index, sizeofShfLogMmap + index < s.reserved → bytes index = s.bytes index) :
    { s with bytes := bytes }.Streams from_ := by
  rcases streams with ⟨low, stream⟩
  refine ⟨low, ?_⟩
  change s.file ++ read bytes from_ (s.used - from_) = s.lines.flatten
  rw [read_put bounded apart kept (by omega)]
  exact stream

end Putting

section Steps

variable {s t : LogState} {event : Event} {client : Nat}

theorem LogState.Waiting.of_same (waiting : s.Waiting) (client : t.client = s.client) (size : t.size = s.size) :
    t.Waiting := by
  unfold Waiting
  rw [client, size]
  exact waiting

theorem LogState.Waiting.gotoClient (waiting : s.Waiting) (pc : ClientPc)
    (some_ : ∀ line prefixLen, pc = .waiting line prefixLen → line.length < s.size ∧ prefixLen < sizeofShfLogPrefix)
    (client_eq : t.client = Function.update s.client client pc) (size : t.size = s.size) : t.Waiting := by
  intro other line prefixLen waits
  rw [client_eq] at waits
  rw [size]
  by_cases same : other = client
  · subst same
    rw [Function.update_self] at waits
    exact some_ line prefixLen waits
  · rw [Function.update_of_ne same] at waits
    exact waiting other line prefixLen waits

theorem step_waiting (step : Step s event t) (waiting : s.Waiting) : t.size = s.size ∧ t.Waiting := by
  cases step with
  | ignore => exact ⟨rfl, waiting⟩
  | call _ short prefixLen_lt =>
    refine ⟨rfl, waiting.gotoClient _ ?_ rfl rfl⟩
    rintro line prefixLen same
    cases same
    exact ⟨short, prefixLen_lt⟩
  | @append client prefixLen line =>
    rcases append_cases s client line prefixLen with same | stored
    · rw [same]
      exact ⟨rfl, waiting⟩
    · rw [stored]
      exact ⟨rfl, waiting.gotoClient (.appended s.lines.length) nofun rfl rfl⟩
  | return_ => exact ⟨rfl, waiting.gotoClient .idle nofun rfl rfl⟩
  | snapshot _ _ second =>
    rcases @snapshot_same s second with ⟨_, _, _, _, size, _⟩
    exact ⟨size, waiting.of_same snapshot_client size⟩
  | write => exact ⟨rfl, waiting⟩
  | writeEnds => exact ⟨rfl, waiting⟩
  | writeRetried => exact ⟨rfl, waiting⟩
  | writeThrottled => exact ⟨rfl, waiting⟩
  | reposition => exact ⟨rfl, waiting⟩
  | leave => exact ⟨rfl, waiting⟩
  | drain => exact ⟨rfl, waiting⟩
  | drainEnds => exact ⟨rfl, waiting⟩
  | drainFails => exact ⟨rfl, waiting⟩
  | drainThrottled => exact ⟨rfl, waiting⟩
  | switch => exact ⟨rfl, waiting⟩
  | stop => exact ⟨rfl, waiting⟩
  | delStarts => exact ⟨rfl, waiting⟩
  | delEnds => exact ⟨rfl, waiting⟩
  | put => exact ⟨rfl, waiting⟩

theorem step_bounded (step : Step s event t) (waiting : s.Waiting) (bounded : s.Bounded) : t.Bounded := by
  have shown := bounded.shown
  cases step with
  | ignore => exact bounded
  | call => exact ⟨bounded.used_le, bounded.size_lt, bounded.mapped_lt, shown⟩
  | append waits mapped => exact append_bounded bounded (waiting _ _ _ waits).2 mapped
  | return_ => exact ⟨bounded.used_le, bounded.size_lt, bounded.mapped_lt, shown⟩
  | snapshot looping _ second =>
    rcases @snapshot_same s second with ⟨_, _, used, _, size, thread⟩
    constructor
    · rw [used, size]
      exact bounded.used_le
    · rw [size]
      exact bounded.size_lt
    · rw [snapshot_mapped]
      exact bounded.mapped_lt
    · rcases thread with same | writing
      · exact shown.moved same used.ge
      · unfold LogState.Shown
        rw [writing, used]
        exact ⟨Nat.le_refl _, Nat.le_refl _⟩
  | write writing some_ most =>
    unfold LogState.Shown at shown
    rw [writing] at shown
    exact ⟨bounded.used_le, bounded.size_lt, bounded.mapped_lt, Nat.sub_le_of_le_add (Nat.le_add_right_of_le shown.1), shown.2⟩
  | writeEnds writing =>
    unfold LogState.Shown at shown
    rw [writing] at shown
    exact ⟨bounded.used_le, bounded.size_lt, bounded.mapped_lt, shown⟩
  | writeRetried writing _ =>
    unfold LogState.Shown at shown
    rw [writing] at shown
    exact ⟨bounded.used_le, bounded.size_lt, bounded.mapped_lt, shown⟩
  | writeThrottled writing _ =>
    unfold LogState.Shown at shown
    rw [writing] at shown
    exact ⟨bounded.used_le, bounded.size_lt, bounded.mapped_lt, shown⟩
  | @reposition second logUsed logLeft written =>
    unfold LogState.Shown at shown
    rw [written] at shown
    refine ⟨?_, bounded.size_lt, bounded.mapped_lt, trivial⟩
    rw [reposition_used shown.1 shown.2 bounded]
    exact Nat.le_trans (Nat.sub_le _ _) bounded.used_le
  | leave => exact ⟨bounded.used_le, bounded.size_lt, bounded.mapped_lt, trivial⟩
  | drain => exact ⟨bounded.used_le, bounded.size_lt, bounded.mapped_lt, trivial⟩
  | drainEnds => exact ⟨bounded.used_le, bounded.size_lt, bounded.mapped_lt, trivial⟩
  | drainFails => exact ⟨bounded.used_le, bounded.size_lt, bounded.mapped_lt, trivial⟩
  | drainThrottled => exact ⟨bounded.used_le, bounded.size_lt, bounded.mapped_lt, trivial⟩
  | switch => exact ⟨bounded.used_le, bounded.size_lt, bounded.mapped_lt, trivial⟩
  | stop => exact ⟨bounded.used_le, bounded.size_lt, bounded.mapped_lt, trivial⟩
  | delStarts => exact ⟨bounded.used_le, bounded.size_lt, bounded.mapped_lt, shown⟩
  | delEnds => exact ⟨bounded.used_le, bounded.size_lt, bounded.mapped_lt, shown⟩
  | put => exact ⟨bounded.used_le, bounded.size_lt, bounded.mapped_lt, shown⟩

end Steps

section Reached

variable {logSize : Nat} {allowed : LogState → Event → Prop} {s : LogState}

theorem initial_bounded (logSize_lt : logSize < 2^32) (bytes : Memory) {mapped : Nat} (mapped_lt : mapped < 2^32) :
    (LogState.initial logSize bytes mapped).Bounded :=
  ⟨Nat.zero_le _, initialSize_lt logSize_lt, mapped_lt, trivial⟩

theorem reachable_waiting (reachable : Reachable logSize allowed s) : s.size = initialSize logSize ∧ s.Waiting := by
  apply reachable.invariant
  · rintro _ ⟨bytes, mapped, _, rfl⟩
    exact ⟨rfl, nofun⟩
  · rintro s t ⟨size, waiting⟩ ⟨event, _, step⟩
    rcases step_waiting step waiting with ⟨same, waits⟩
    exact ⟨same.trans size, waits⟩

theorem reachable_bounded (logSize_lt : logSize < 2^32) (reachable : Reachable logSize allowed s) :
    s.Waiting ∧ s.Bounded := by
  apply reachable.invariant
  · rintro _ ⟨bytes, mapped, mapped_lt, rfl⟩
    exact ⟨nofun, initial_bounded logSize_lt bytes mapped_lt⟩
  · rintro s t ⟨waiting, bounded⟩ ⟨event, _, step⟩
    exact ⟨(step_waiting step waiting).2, step_bounded step waiting bounded⟩

end Reached

section Runs

variable {logSize : Nat} {allowed : LogState → Event → Prop} {s t : LogState} {client prefixLen : Nat} {line : List UInt8}

theorem Reachable.start (bytes : Memory) {mapped : Nat} (mapped_lt : mapped < 2^32) :
    Reachable logSize allowed (LogState.initial logSize bytes mapped) :=
  Transition.Reachable.start ⟨bytes, mapped, mapped_lt, rfl⟩

theorem Reachable.then {event : Event} (reachable : Reachable logSize allowed s) (allows : allowed s event)
    (step : Step s event t) : Reachable logSize allowed t :=
  Transition.Reachable.next reachable ⟨event, allows, step⟩

def LogState.logged (s : LogState) (client : Nat) (line : List UInt8) : LogState :=
  { s.store client line with returned := s.returned ++ [s.lines.length], client := s.client }

theorem gotoClient_client (pc : ClientPc) : (s.gotoClient client pc).client client = pc := Function.update_self _ _ _

theorem gotoClient_logged (idle : s.client client = .idle) :
    { (s.gotoClient client (.waiting line prefixLen)).store client line with
      returned := s.returned ++ [s.lines.length] }.gotoClient client .idle = s.logged client line := by
  have same : Function.update (Function.update (Function.update s.client client (.waiting line prefixLen)) client
      (.appended s.lines.length)) client .idle = s.client := by
    rw [Function.update_idem, Function.update_idem, ← idle, Function.update_eq_self]
  unfold LogState.logged LogState.gotoClient LogState.store
  simp only [same]

theorem Reachable.logged (reachable : Reachable logSize allowed s) (call : allowed s (.call client))
    (round : allowed (s.gotoClient client (.waiting line prefixLen)) (.append client))
    (returns : allowed ((s.gotoClient client (.waiting line prefixLen)).store client line) (.return_ client))
    (idle : s.client client = .idle) (short : line.length < s.size) (prefixLen_lt : prefixLen < sizeofShfLogPrefix)
    (room : ¬ s.NoRoom line prefixLen) (mapped : s.StoresMapped line) : Reachable logSize allowed (s.logged client line) := by
  have called := reachable.then call (.call idle short prefixLen_lt)
  have appended := called.then round (.append (gotoClient_client _) fun _ => mapped)
  rw [append_room (by exact room)] at appended
  rw [← gotoClient_logged idle]
  exact appended.then returns (.return_ (Function.update_self _ _ _))

end Runs

section Examples

variable {logSize : Nat} {allowed : LogState → Event → Prop}

def shortLine : List UInt8 := List.replicate 20 0

def aloneInitial (logSize : Nat) : LogState := LogState.initial logSize (fun _ => 0) 139226

theorem aloneInitial_reachable : Reachable logSize allowed (aloneInitial logSize) := Reachable.start _ (by decide)

end Examples

end SharedHashFile.Log
