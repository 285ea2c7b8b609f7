import SharedHashFile.Lock.RwLock

namespace SharedHashFile.Lock

/-- The packed word against the absolute number of requests released, passed (admitted or
    released as a writer) and drawn. A pad holds at most the carries of the clients which have
    not cleared it since their own increment, so no carry reaches the next ticket. -/
structure WordCounts (lock : Nat) (writerPads readerPads released passed drawn : Nat) : Prop where
  width : lock < 2^64
  writerField : lock % 2^16 ≤ 255 + writerPads
  readerField : lock / 2^16 % 2^16 ≤ 255 + readerPads
  activeWriter : ticketActiveWriter lock = released % 256
  activeReader : ticketActiveReader lock = passed % 256
  next : ticketNext lock = drawn % 256

theorem WordCounts.initial : WordCounts 0 0 0 0 0 0 := by
  constructor <;> decide

namespace WordCounts

variable {lock : Nat} {writerPads readerPads released passed drawn : Nat}

theorem draw (counts : WordCounts lock writerPads readerPads released passed drawn) :
    WordCounts (fetchAndAdd lock incTicketNext) writerPads readerPads released passed (drawn + 1) := by
  obtain ⟨width, writerField, readerField, activeWriter, activeReader, next⟩ := counts
  simp only [ticketActiveWriter, ticketActiveReader, ticketNext, byteAt, fetchAndAdd, incTicketNext,
    Nat.reducePow, Nat.div_one] at *
  constructor <;>
    simp only [ticketActiveWriter, ticketActiveReader, ticketNext, byteAt, Nat.reducePow, Nat.div_one] <;>
    omega

theorem clear_next (counts : WordCounts lock writerPads readerPads released passed drawn) :
    WordCounts (clearPadTicketNext lock) writerPads readerPads released passed drawn := by
  obtain ⟨width, writerField, readerField, activeWriter, activeReader, next⟩ := counts
  simp only [ticketActiveWriter, ticketActiveReader, ticketNext, byteAt, clearPadTicketNext, clearByte,
    Nat.reducePow, Nat.div_one] at *
  constructor <;>
    simp only [ticketActiveWriter, ticketActiveReader, ticketNext, byteAt, Nat.reducePow, Nat.div_one] <;>
    omega

theorem add_reader (counts : WordCounts lock writerPads readerPads released passed drawn)
    (pads : readerPads ≤ 256) :
    WordCounts (fetchAndAdd lock incTicketNextActiveReader) writerPads (readerPads + 1) released
      (passed + 1) drawn := by
  obtain ⟨width, writerField, readerField, activeWriter, activeReader, next⟩ := counts
  simp only [ticketActiveWriter, ticketActiveReader, ticketNext, byteAt, fetchAndAdd,
    incTicketNextActiveReader, Nat.reducePow, Nat.div_one] at *
  constructor <;>
    simp only [ticketActiveWriter, ticketActiveReader, ticketNext, byteAt, Nat.reducePow, Nat.div_one] <;>
    omega

theorem add_writer (counts : WordCounts lock writerPads readerPads released passed drawn)
    (pads : writerPads ≤ 256) :
    WordCounts (fetchAndAdd lock incTicketNextActiveWriter) (writerPads + 1) readerPads (released + 1)
      passed drawn := by
  obtain ⟨width, writerField, readerField, activeWriter, activeReader, next⟩ := counts
  simp only [ticketActiveWriter, ticketActiveReader, ticketNext, byteAt, fetchAndAdd,
    incTicketNextActiveWriter, Nat.reducePow, Nat.div_one] at *
  constructor <;>
    simp only [ticketActiveWriter, ticketActiveReader, ticketNext, byteAt, Nat.reducePow, Nat.div_one] <;>
    omega

/-- `shf_rw_unlock_writer` adds to both fields at once. -/
theorem fetchAndAdd_both (lock : Nat) :
    fetchAndAdd lock (incTicketNextActiveWriter + incTicketNextActiveReader) =
      fetchAndAdd (fetchAndAdd lock incTicketNextActiveWriter) incTicketNextActiveReader := by
  simp only [fetchAndAdd, incTicketNextActiveWriter, incTicketNextActiveReader]
  omega

theorem add_both (counts : WordCounts lock writerPads readerPads released passed drawn)
    (left : writerPads ≤ 256) (right : readerPads ≤ 256) :
    WordCounts (fetchAndAdd lock (incTicketNextActiveWriter + incTicketNextActiveReader))
      (writerPads + 1) (readerPads + 1) (released + 1) (passed + 1) drawn := by
  rw [fetchAndAdd_both]
  exact (counts.add_writer left).add_reader right

theorem clear_writer (counts : WordCounts lock (writerPads + 1) readerPads released passed drawn) :
    WordCounts (clearPadTicketActiveWriter lock) writerPads readerPads released passed drawn := by
  obtain ⟨width, writerField, readerField, activeWriter, activeReader, next⟩ := counts
  simp only [ticketActiveWriter, ticketActiveReader, ticketNext, byteAt, clearPadTicketActiveWriter,
    clearByte, Nat.reducePow, Nat.div_one] at *
  constructor <;>
    simp only [ticketActiveWriter, ticketActiveReader, ticketNext, byteAt, Nat.reducePow, Nat.div_one] <;>
    omega

theorem clear_reader (counts : WordCounts lock writerPads (readerPads + 1) released passed drawn) :
    WordCounts (clearPadTicketActiveReader lock) writerPads readerPads released passed drawn := by
  obtain ⟨width, writerField, readerField, activeWriter, activeReader, next⟩ := counts
  simp only [ticketActiveWriter, ticketActiveReader, ticketNext, byteAt, clearPadTicketActiveReader,
    clearByte, Nat.reducePow, Nat.div_one] at *
  constructor <;>
    simp only [ticketActiveWriter, ticketActiveReader, ticketNext, byteAt, Nat.reducePow, Nat.div_one] <;>
    omega

end WordCounts

end SharedHashFile.Lock
