import SharedHashFile.Lock.RwLockInvariant

namespace SharedHashFile.Lock

open Transition

variable {clients : Nat}

namespace Counted

variable {s : LockState clients} {released passed : Nat} {client : Fin clients}

theorem clear_next (counted : Counted s released passed) {mode : Mode} {ticket order : Nat}
    (position : s.pc client = .drew mode ticket order) :
    Invariant ({ s with lock := clearPadTicketNext s.lock }.goto client (.spin mode ticket order)) := by
  have mine := counted.placed client
  rw [position] at mine
  apply counted.goto client (.spin mode ticket order) released passed
  · intro writerPads readerPads left right
    simp only [position, Pc.owesWriterPad, Pc.owesReaderPad, Nat.add_zero] at left right
    rw [left, right]
    exact counted.word.clear_next
  · simpa only [position, Pc.reading, Nat.add_zero] using counted.readers
  · simp only [position, Pc.waiting, counted.waiters]
  · exact mine
  · exact fun c _ => counted.placed c
  · right
    rw [position]
    rfl

/-- The last spin load of a reader: its ticket is the next one to pass. -/
theorem enter_reader (counted : Counted s released passed) (small : clients ≤ 256) {ticket order : Nat}
    (position : s.pc client = .spin .reader ticket order) (active : ticket = ticketActiveReader s.lock) :
    Invariant (s.goto client (.admitting order)) := by
  have mine := counted.placed client
  rw [position] at mine
  obtain ⟨wrapped, low, high⟩ := mine
  have window := counted.window small
  have readers := counted.readers
  have turn : order = passed := by
    have absolute := counted.word.activeReader
    omega
  apply counted.goto client (.admitting order) released passed
  · intro writerPads readerPads left right
    simp only [position, Pc.owesWriterPad, Pc.owesReaderPad, Nat.add_zero] at left right
    rw [left, right]
    exact counted.word
  · simpa only [position, Pc.reading, Nat.add_zero] using counted.readers
  · simp only [position, Pc.waiting, counted.waiters]
  · exact ⟨turn, high⟩
  · exact fun c _ => counted.placed c
  · right
    rw [position]
    rfl

/-- The last spin load of a writer: everybody before it has released. -/
theorem enter_writer (counted : Counted s released passed) (small : clients ≤ 256) {ticket order : Nat}
    (position : s.pc client = .spin .writer ticket order) (active : ticket = ticketActiveWriter s.lock) :
    Invariant (s.goto client (.holds .writer order)) := by
  have mine := counted.placed client
  rw [position] at mine
  obtain ⟨wrapped, low, high⟩ := mine
  have window := counted.window small
  have readers := counted.readers
  have turn : order = released := by
    have absolute := counted.word.activeWriter
    omega
  apply counted.goto client (.holds .writer order) released passed
  · intro writerPads readerPads left right
    simp only [position, Pc.owesWriterPad, Pc.owesReaderPad, Nat.add_zero] at left right
    rw [left, right]
    exact counted.word
  · simpa only [position, Pc.reading, Nat.add_zero] using counted.readers
  · simp only [position, Pc.waiting, counted.waiters]
  · exact ⟨by omega, turn, high⟩
  · exact fun c _ => counted.placed c
  · right
    rw [position]
    rfl

theorem other_order (counted : Counted s released passed) {order : Nat}
    (mine : (s.pc client).order? = some order) {c : Fin clients} (other : c ≠ client) :
    (s.pc c).order? ≠ some order :=
  fun theirs => other (counted.distinct c client order theirs mine)

theorem enter_admitted (counted : Counted s released passed) (small : clients ≤ 256) {order : Nat}
    (position : s.pc client = .admitting order) :
    Invariant ({ s with lock := fetchAndAdd s.lock incTicketNextActiveReader }.goto client
      (.admitted order)) := by
  have mine := counted.placed client
  rw [position] at mine
  obtain ⟨rfl, high⟩ := mine
  apply counted.goto client (.admitted order) released (order + 1)
  · intro writerPads readerPads left right
    simp only [position, Pc.owesWriterPad, Pc.owesReaderPad, Nat.add_zero] at left right
    rw [left, right]
    exact counted.word.add_reader (counted.reader_pads small)
  · simp only [position, Pc.reading, counted.readers, Nat.add_zero]
  · have waiters := counted.waiters
    simp only [position, Pc.waiting]
    omega
  · exact Nat.lt_succ_self order
  · intro c other
    exact (counted.placed c).passed (counted.other_order (by rw [position]; rfl) other)
  · right
    rw [position]
    rfl

theorem clear_admitted (counted : Counted s released passed) {order : Nat}
    (position : s.pc client = .admitted order) :
    Invariant ({ s with lock := clearPadTicketActiveReader s.lock }.goto client
      (.holds .reader order)) := by
  have mine := counted.placed client
  rw [position] at mine
  apply counted.goto client (.holds .reader order) released passed
  · intro writerPads readerPads left right
    simp only [position, Pc.owesWriterPad, Pc.owesReaderPad, Nat.add_zero] at left right
    rw [left]
    have word := counted.word
    rw [← right] at word
    exact word.clear_reader
  · simp only [position, Pc.reading, counted.readers]
  · simpa only [position, Pc.waiting, Nat.add_zero] using counted.waiters
  · exact mine
  · exact fun c _ => counted.placed c
  · right
    rw [position]
    rfl

theorem leave_reader (counted : Counted s released passed) (small : clients ≤ 256) {order : Nat}
    (position : s.pc client = .holds .reader order) :
    Invariant ({ s with lock := fetchAndAdd s.lock incTicketNextActiveWriter }.goto client
      .readerLeft) := by
  have someone := weight_le_total Pc.reading s.pc client
  have readers := counted.readers
  simp only [position, Pc.reading] at someone
  apply counted.goto client .readerLeft (released + 1) passed
  · intro writerPads readerPads left right
    simp only [position, Pc.owesWriterPad, Pc.owesReaderPad, Nat.add_zero] at left right
    rw [left, right]
    exact counted.word.add_writer (counted.writer_pads small)
  · simp only [position, Pc.reading]
    omega
  · simpa only [position, Pc.waiting, Nat.add_zero] using counted.waiters
  · exact True.intro
  · intro c _
    apply (counted.placed c).released
    intro theirs writing
    have inside := counted.placed c
    rw [writing] at inside
    have equal : passed = released := inside.1.symm.trans inside.2.1
    omega
  · exact Or.inl rfl

theorem leave_writer (counted : Counted s released passed) (small : clients ≤ 256) {order : Nat}
    (position : s.pc client = .holds .writer order) :
    Invariant ({ s with lock := fetchAndAdd s.lock (incTicketNextActiveWriter +
      incTicketNextActiveReader) }.goto client .writerLeft) := by
  have mine := counted.placed client
  rw [position] at mine
  obtain ⟨rfl, equal, high⟩ := mine
  have drew : (s.pc client).order? = some order := by rw [position]; rfl
  apply counted.goto client .writerLeft (released + 1) (order + 1)
  · intro writerPads readerPads left right
    simp only [position, Pc.owesWriterPad, Pc.owesReaderPad, Nat.add_zero] at left right
    rw [left, right]
    exact counted.word.add_both (counted.writer_pads small) (counted.reader_pads small)
  · have readers := counted.readers
    simp only [position, Pc.reading]
    omega
  · have waiters := counted.waiters
    simp only [position, Pc.waiting]
    omega
  · exact True.intro
  · intro c other
    have different := counted.other_order drew other
    apply ((counted.placed c).passed different).released
    intro theirs writing
    have inside := counted.placed c
    rw [writing] at inside different
    exact different (congrArg some inside.1)
  · exact Or.inl rfl

theorem clear_reader_left (counted : Counted s released passed) (position : s.pc client = .readerLeft) :
    Invariant ({ s with lock := clearPadTicketActiveWriter s.lock }.goto client .outside) := by
  apply counted.goto client .outside released passed
  · intro writerPads readerPads left right
    simp only [position, Pc.owesWriterPad, Pc.owesReaderPad, Nat.add_zero] at left right
    rw [right]
    have word := counted.word
    rw [← left] at word
    exact word.clear_writer
  · simpa only [position, Pc.reading, Nat.add_zero] using counted.readers
  · simpa only [position, Pc.waiting, Nat.add_zero] using counted.waiters
  · exact True.intro
  · exact fun c _ => counted.placed c
  · exact Or.inl rfl

theorem clear_writer_left (counted : Counted s released passed) (position : s.pc client = .writerLeft) :
    Invariant ({ s with lock := clearPadTicketActiveWriter s.lock }.goto client .writerLeaving) := by
  apply counted.goto client .writerLeaving released passed
  · intro writerPads readerPads left right
    simp only [position, Pc.owesWriterPad, Pc.owesReaderPad, Nat.add_zero, Nat.add_right_cancel_iff] at left right
    rw [right]
    have word := counted.word
    rw [← left] at word
    exact word.clear_writer
  · simpa only [position, Pc.reading, Nat.add_zero] using counted.readers
  · simpa only [position, Pc.waiting, Nat.add_zero] using counted.waiters
  · exact True.intro
  · exact fun c _ => counted.placed c
  · exact Or.inl rfl

theorem clear_writer_leaving (counted : Counted s released passed)
    (position : s.pc client = .writerLeaving) :
    Invariant ({ s with lock := clearPadTicketActiveReader s.lock }.goto client .outside) := by
  apply counted.goto client .outside released passed
  · intro writerPads readerPads left right
    simp only [position, Pc.owesWriterPad, Pc.owesReaderPad, Nat.add_zero] at left right
    rw [left]
    have word := counted.word
    rw [← right] at word
    exact word.clear_reader
  · simpa only [position, Pc.reading, Nat.add_zero] using counted.readers
  · simpa only [position, Pc.waiting, Nat.add_zero] using counted.waiters
  · exact True.intro
  · exact fun c _ => counted.placed c
  · exact Or.inl rfl

end Counted

theorem invariant_step (small : clients ≤ 256) (s t : LockState clients) (holds : Invariant s)
    (moved : s.Step t) : Invariant t := by
  obtain ⟨released, passed, counted⟩ := holds
  obtain ⟨client, choice, rfl⟩ := moved
  cases position : s.pc client with
  | outside => exact counted.draw client choice position
  | drew mode ticket order =>
    simpa only [LockState.advance, position] using counted.clear_next position
  | spin mode ticket order =>
    cases mode with
    | reader =>
      simp only [LockState.advance, position]
      split
      · rename_i active
        exact counted.enter_reader small position active
      · exact ⟨released, passed, counted⟩
    | writer =>
      simp only [LockState.advance, position]
      split
      · rename_i active
        exact counted.enter_writer small position active
      · exact ⟨released, passed, counted⟩
  | admitting order => simpa only [LockState.advance, position] using counted.enter_admitted small position
  | admitted order => simpa only [LockState.advance, position] using counted.clear_admitted position
  | holds mode order =>
    cases mode with
    | reader => simpa only [LockState.advance, position] using counted.leave_reader small position
    | writer => simpa only [LockState.advance, position] using counted.leave_writer small position
  | readerLeft => simpa only [LockState.advance, position] using counted.clear_reader_left position
  | writerLeft => simpa only [LockState.advance, position] using counted.clear_writer_left position
  | writerLeaving =>
    simpa only [LockState.advance, position] using counted.clear_writer_leaving position

theorem invariant_reachable (small : clients ≤ 256) {s : LockState clients} (reached : s.Reachable) :
    Invariant s :=
  reached.invariant (fun _ first => first ▸ invariant_initial) (invariant_step small)

end SharedHashFile.Lock
