import SharedHashFile.Log.Stream

namespace SharedHashFile.Log

open ByteMemory

namespace LogState

def StoresInside (s : LogState) (length : Nat) : Prop :=
  ∀ client line prefixLen, s.client client = .waiting line prefixLen → ¬ s.NoRoom line prefixLen →
    ∀ index < line.length, sizeofShfLogMmap + s.used + index < length

end LogState

section Reservation

variable {logSize : Nat} {s : LogState}

/-- The reservation holds the buffer if `log_size` is not the one for the default, and no sum wraps around. -/
theorem storesInside (size : logSize ≠ 0) (small : sizeofShfLogMmap + logSize < 2^32)
    (reachable : Reachable logSize (fun _ _ => True) s) : s.StoresInside (reservedLen logSize) := by
  intro client line prefixLen waits enough index index_lt
  have logSize_lt : logSize < 2^32 := by omega
  have size_eq : initialSize logSize = logSize := if_pos size
  have header : sizeofShfLogPrefix ≤ sizeofShfLogMmap := by decide
  rcases reachable_waiting reachable with ⟨same, waiting⟩
  rcases waiting client line prefixLen waits with ⟨short, prefixLen_lt⟩
  have bounded := (reachable_bounded logSize_lt reachable).2
  have fits := room bounded (by omega) enough
  unfold reservedLen
  rw [Nat.mod_eq_of_lt small]
  omega

theorem firstByte_waits (logSize_lt : logSize < 2^32) (large : 1 < initialSize logSize) :
    ∃ s, Reachable logSize (fun _ _ => True) s ∧ s.used = 0 ∧ s.client 0 = .waiting [0] 0 ∧ ¬ s.NoRoom [0] 0 := by
  have start : Reachable logSize (fun _ _ => True) (aloneInitial logSize) := aloneInitial_reachable
  have short : [(0 : UInt8)].length < (aloneInitial logSize).size := large
  refine ⟨_, start.then trivial (.call rfl short (show 0 < sizeofShfLogPrefix by decide)), rfl, gotoClient_client _, ?_⟩
  have lt := initialSize_lt logSize_lt
  unfold LogState.NoRoom
  change ¬ (initialSize logSize + 2^32 - 0) % 2^32 < (0 + 1) % 2^32
  omega

theorem storesInside_iff (logSize : Nat) (logSize_lt : logSize < 2^32) :
    (∀ s, Reachable logSize (fun _ _ => True) s → s.StoresInside (reservedLen logSize)) ↔
      logSize ≠ 0 ∧ sizeofShfLogMmap + logSize < 2^32 := by
  constructor
  · intro inside
    by_contra outside
    have header : sizeofShfLogMmap = 131133 := rfl
    have large : 1 < initialSize logSize := by
      unfold initialSize
      split
      · omega
      · decide
    rcases firstByte_waits logSize_lt large with ⟨s, reachable, used, waits, room⟩
    have stored := inside s reachable 0 [0] 0 waits room 0 (by decide)
    unfold reservedLen at stored
    omega
  · rintro ⟨size, small⟩ s reachable
    exact storesInside size small reachable

theorem storesInside_100 : (∀ s, Reachable 100 (fun _ _ => True) s → s.StoresInside (reservedLen 100)) ↔
    100 ≠ 0 ∧ sizeofShfLogMmap + 100 < 2^32 := storesInside_iff 100 (by decide)

/-- With the size for the default, nothing is reserved for the buffer. -/
theorem not_storesInside : ¬ ∀ logSize : Nat, logSize < 2^32 →
    ∀ s, Reachable logSize (fun _ _ => True) s → s.StoresInside (reservedLen logSize) := by
  intro inside
  rcases @firstByte_waits 0 (by decide) (by decide) with ⟨s, reachable, used, waits, room⟩
  have stored := inside 0 (by decide) s reachable 0 [0] 0 waits room 0 (by decide)
  rw [used] at stored
  exact absurd stored (by decide)

end Reservation

section Rounds

variable {logSize prefixLen client : Nat} {s : LogState} {line : List UInt8}

theorem snapshot_writes {second : Nat} (some_ : 0 < s.used) (new : s.second ≠ second) (allowed : s.writeFail ≠ second) :
    (s.snapshot second).thread = .writing second s.used s.used ∧ (s.snapshot second).used = s.used ∧
      (s.snapshot second).client = s.client ∧ (s.snapshot second).lines = s.lines := by
  refine ⟨?_, snapshot_same.2.2.1, snapshot_client, snapshot_same.2.2.2.1⟩
  unfold LogState.snapshot
  rw [if_pos ⟨some_, allowed⟩]
  dsimp only
  rw [if_pos (.inl new)]

/-- Once the buffer is drained, the next round of a line which waits appends it. -/
def AppendsWhenDrained (logSize : Nat) (line : List UInt8) (prefixLen : Nat) : Prop :=
  ∀ s, Reachable logSize (fun _ _ => True) s → ∀ client, s.client client = .waiting line prefixLen → s.used = 0 →
    (s.append client line prefixLen).client client = .appended s.lines.length

theorem drained_room (logSize_lt : logSize < 2^32) (size : s.size = initialSize logSize) (used : s.used = 0)
    (short : line.length < initialSize logSize) (prefixLen_lt : prefixLen < sizeofShfLogPrefix) :
    ¬ s.NoRoom line prefixLen ↔ prefixLen + line.length ≤ initialSize logSize ∨ 2^32 ≤ prefixLen + line.length := by
  have lt := initialSize_lt logSize_lt
  have small : prefixLen < 128 := prefixLen_lt
  unfold LogState.NoRoom
  rw [size, used]
  omega

theorem appended_of_room (room : ¬ s.NoRoom line prefixLen) :
    (s.append client line prefixLen).client client = .appended s.lines.length := by
  rw [append_room room]
  exact Function.update_self _ _ _

theorem appendsWhenDrained_iff (logSize prefixLen : Nat) (line : List UInt8) (logSize_lt : logSize < 2^32)
    (short : line.length < initialSize logSize) (prefixLen_lt : prefixLen < sizeofShfLogPrefix) :
    AppendsWhenDrained logSize line prefixLen ↔
      prefixLen + line.length ≤ initialSize logSize ∨ 2^32 ≤ prefixLen + line.length := by
  constructor
  · intro appends
    have start : Reachable logSize (fun _ _ => True) (aloneInitial logSize) := aloneInitial_reachable
    have waits := start.then trivial (show Step _ (.call 0) _ from .call rfl short prefixLen_lt)
    have round := appends _ waits 0 (gotoClient_client _) rfl
    rw [← drained_room logSize_lt (reachable_waiting waits).1 rfl short prefixLen_lt]
    intro none_
    rw [append_none none_, gotoClient_client] at round
    cases round
  · intro fits s reachable client _ used
    exact appended_of_room ((drained_room logSize_lt (reachable_waiting reachable).1 used short prefixLen_lt).mpr fits)

theorem appendsWhenDrained_shortLine : AppendsWhenDrained 100 shortLine 20 :=
  (appendsWhenDrained_iff 100 20 shortLine (by decide) (by decide) (by decide)).mpr (.inl (by decide))

/-- The first test of `shf_log_append` leaves out the length of the prefix. -/
theorem not_appendsWhenDrained : ¬ ∀ (logSize prefixLen : Nat) (line : List UInt8), logSize < 2^32 →
    line.length < initialSize logSize → prefixLen < sizeofShfLogPrefix → AppendsWhenDrained logSize line prefixLen := by
  intro appends
  have start : Reachable 100 (fun _ _ => True) (aloneInitial 100) := aloneInitial_reachable
  have short : (List.replicate 90 (0 : UInt8)).length < initialSize 100 := by decide
  have waits := start.then trivial (show Step _ (.call 0) _ from .call rfl short (show 20 < sizeofShfLogPrefix by decide))
  have round := appends 100 20 _ (by decide) short (by decide) _ waits 0 (gotoClient_client _) rfl
  rw [append_none (by decide), gotoClient_client] at round
  cases round

/-- A line which has no room in the drained buffer has none ever. -/
theorem noRoom_always (logSize_lt : logSize < 2^32) (reachable : Reachable logSize (fun _ _ => True) s)
    (small : prefixLen + line.length < 2^32) (long : initialSize logSize < prefixLen + line.length) :
    s.NoRoom line prefixLen := by
  by_contra enough
  have fits := room (reachable_bounded logSize_lt reachable).2 small enough
  rw [(reachable_waiting reachable).1] at fits
  omega

/-- The log thread can drain the buffer from wherever it starts a round of its loop. -/
theorem drains (logSize_lt : logSize < 2^32) (reachable : Reachable logSize (fun _ _ => True) s) (looping : s.thread = .looping)
    (running : s.running ≠ 0) : ∃ t, Reachable logSize (fun _ _ => True) t ∧ t.used = 0 ∧ t.client = s.client ∧ t.lines = s.lines := by
  by_cases empty : s.used = 0
  · exact ⟨s, reachable, empty, rfl, rfl⟩
  · obtain ⟨second, new, allowed⟩ : ∃ second, s.second ≠ second ∧ s.writeFail ≠ second :=
      ⟨s.second + s.writeFail + 1, by omega, by omega⟩
    rcases snapshot_writes (Nat.pos_of_ne_zero empty) new allowed with ⟨writing, used, client, lines⟩
    have snapshot := reachable.then trivial (.snapshot looping running second)
    have wrote := snapshot.then trivial (.write writing (Nat.pos_of_ne_zero empty) (Nat.le_refl _))
    rw [Nat.sub_self] at wrote
    have written := wrote.then trivial (.writeEnds rfl)
    have bounded := (reachable_bounded logSize_lt written).2
    refine ⟨_, written.then trivial (.reposition rfl), ?_, client, lines⟩
    rw [reposition_used (Nat.zero_le _) (by exact used.ge) bounded]
    change (s.snapshot second).used - (s.used - 0) = 0
    omega

end Rounds

end SharedHashFile.Log
