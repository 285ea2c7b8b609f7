import SharedHashFile.Transition.Reachability

namespace SharedHashFile.Lock

def incTicketNextActiveWriter : Nat := 0x0000000000000001
def incTicketNextActiveReader : Nat := 0x0000000000010000
def incTicketNext : Nat := 0x0000000100000000

/-- `__sync_fetch_and_add_8` on the packed word: carries leave each byte upwards. -/
def fetchAndAdd (lock : Nat) (increment : Nat) : Nat := (lock + increment) % 2^64

/-- The `as_u08` member of `SHF_RW_LOCK_UNION` starting at `1 << (index * 8)`. -/
def byteAt (lock : Nat) (index : Nat) : Nat := lock / 256^index % 256

/-- The byte store `lock->lock.as_u08.pad_* = 0`. -/
def clearByte (lock : Nat) (index : Nat) : Nat := lock - byteAt lock index * 256^index

def ticketActiveWriter (lock : Nat) : Nat := byteAt lock 0
def ticketActiveReader (lock : Nat) : Nat := byteAt lock 2
def ticketNext (lock : Nat) : Nat := byteAt lock 4
def clearPadTicketActiveWriter (lock : Nat) : Nat := clearByte lock 1
def clearPadTicketActiveReader (lock : Nat) : Nat := clearByte lock 3
def clearPadTicketNext (lock : Nat) : Nat := clearByte lock 5

inductive Mode
  | reader
  | writer
  deriving DecidableEq

/-- What a client does next. `ticket` is `ticket_next_pre_inc`; `order` counts the requests
    drawn before this one and is read by no step. -/
inductive Pc
  | outside
  /-- about to clear `pad_ticket_next` -/
  | drew (mode : Mode) (ticket order : Nat)
  /-- in the `while` loop of `shf_rw_lock_reader` or `shf_rw_lock_writer` -/
  | spin (mode : Mode) (ticket order : Nat)
  /-- a reader past its loop, about to increment `ticket_active_reader` -/
  | admitting (order : Nat)
  /-- a reader about to clear `pad_ticket_active_reader` -/
  | admitted (order : Nat)
  /-- between the lock and the unlock call -/
  | holds (mode : Mode) (order : Nat)
  /-- `shf_rw_unlock_reader`, about to clear `pad_ticket_active_writer` -/
  | readerLeft
  /-- `shf_rw_unlock_writer`, about to clear `pad_ticket_active_writer` -/
  | writerLeft
  /-- `shf_rw_unlock_writer`, about to clear `pad_ticket_active_reader` -/
  | writerLeaving
  deriving DecidableEq

structure LockState (clients : Nat) where
  lock : Nat
  /-- requests drawn so far; only names them, read by no step -/
  drawn : Nat
  pc : Fin clients → Pc

namespace LockState

variable {clients : Nat}

def initial : LockState clients := ⟨0, 0, fun _ => .outside⟩

def goto (s : LockState clients) (client : Fin clients) (pc : Pc) : LockState clients :=
  { s with pc := Function.update s.pc client pc }

/-- One atomic step of `client`; `choice` is the next call of a client outside the lock. -/
def advance (s : LockState clients) (client : Fin clients) (choice : Mode) : LockState clients :=
  match s.pc client with
  | .outside =>
    { lock := fetchAndAdd s.lock incTicketNext
      drawn := s.drawn + 1
      pc := Function.update s.pc client (.drew choice (ticketNext s.lock) s.drawn) }
  | .drew mode ticket order =>
    { s with lock := clearPadTicketNext s.lock }.goto client (.spin mode ticket order)
  | .spin .writer ticket order =>
    if ticket = ticketActiveWriter s.lock then s.goto client (.holds .writer order) else s
  | .spin .reader ticket order =>
    if ticket = ticketActiveReader s.lock then s.goto client (.admitting order) else s
  | .admitting order =>
    { s with lock := fetchAndAdd s.lock incTicketNextActiveReader }.goto client (.admitted order)
  | .admitted order =>
    { s with lock := clearPadTicketActiveReader s.lock }.goto client (.holds .reader order)
  | .holds .reader _ =>
    { s with lock := fetchAndAdd s.lock incTicketNextActiveWriter }.goto client .readerLeft
  | .holds .writer _ =>
    { s with lock := fetchAndAdd s.lock (incTicketNextActiveWriter + incTicketNextActiveReader) }.goto
      client .writerLeft
  | .readerLeft => { s with lock := clearPadTicketActiveWriter s.lock }.goto client .outside
  | .writerLeft => { s with lock := clearPadTicketActiveWriter s.lock }.goto client .writerLeaving
  | .writerLeaving => { s with lock := clearPadTicketActiveReader s.lock }.goto client .outside

def Step (s t : LockState clients) : Prop := ∃ client choice, t = s.advance client choice

def Reachable : LockState clients → Prop := Transition.Reachable (· = initial) Step

end LockState

def Pc.request : Pc → Option (Mode × Nat)
  | .drew mode _ order | .spin mode _ order | .holds mode order => some (mode, order)
  | .admitting order | .admitted order => some (.reader, order)
  | .outside | .readerLeft | .writerLeft | .writerLeaving => none

def Pc.inside : Pc → Option Mode
  | .admitting _ | .admitted _ => some .reader
  | .holds mode _ => some mode
  | _ => none

namespace LockState

variable {clients : Nat}

def WriterAlone (s : LockState clients) : Prop :=
  ∀ i j, i ≠ j → (s.pc i).inside = some .writer → (s.pc j).inside = none

/-- Of two conflicting requests the later one is not inside while the earlier is unreleased. -/
def TicketOrder (s : LockState clients) : Prop :=
  ∀ i j earlier later m m', (s.pc i).request = some (m, earlier) → (s.pc j).request = some (m', later) →
    m = .writer ∨ m' = .writer → earlier < later → (s.pc j).inside = none

end LockState

end SharedHashFile.Lock
