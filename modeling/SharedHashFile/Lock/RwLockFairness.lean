import SharedHashFile.Lock.RwLockSafety

namespace SharedHashFile.Lock

variable {clients : Nat}

theorem Pc.request_order {pc : Pc} {mode : Mode} {order : Nat} (drew : pc.request = some (mode, order)) :
    pc.order? = some order := by
  simp only [order?, drew, Option.map_some]

theorem Pc.inside_bound {released passed drawn order : Nat} {mode : Mode} {pc : Pc}
    (placed : pc.Placed released passed drawn) (inside : pc.inside ≠ none)
    (drew : pc.request = some (mode, order)) :
    order ≤ passed ∧ (mode = .writer → order = passed ∧ passed = released) := by
  cases pc with
  | admitting mine => cases drew; exact ⟨Nat.le_of_eq placed.1, nofun⟩
  | admitted mine => cases drew; exact ⟨Nat.le_of_lt placed, nofun⟩
  | holds _ mine =>
    cases drew
    cases mode with
    | reader => exact ⟨Nat.le_of_lt placed, nofun⟩
    | writer =>
      obtain ⟨passed, released, _⟩ := placed
      exact ⟨Nat.le_of_eq passed, fun _ => ⟨passed, passed ▸ released⟩⟩
  | _ => exact absurd rfl inside

/-- An unreleased request below the passed count belongs to a reader inside. -/
theorem Pc.unreleased_below {released passed drawn order : Nat} {mode : Mode} {pc : Pc}
    (placed : pc.Placed released passed drawn) (drew : pc.request = some (mode, order))
    (below : order < passed) : mode = .reader ∧ pc.reading = 1 := by
  cases pc with
  | outside => cases drew
  | drew _ _ _ => cases drew; have := placed.2.1; omega
  | spin _ _ _ => cases drew; have := placed.2.1; omega
  | admitting _ => cases drew; have := placed.1; omega
  | admitted _ => cases drew; exact ⟨rfl, rfl⟩
  | holds _ _ =>
    cases drew
    cases mode with
    | reader => exact ⟨rfl, rfl⟩
    | writer => have := placed.1; omega
  | readerLeft => cases drew
  | writerLeft => cases drew
  | writerLeaving => cases drew

theorem Counted.ticketOrder {s : LockState clients} {released passed : Nat}
    (counted : Counted s released passed) : s.TicketOrder := by
  intro i j earlier later m m' first second conflict before
  by_contra inside
  obtain ⟨low, writing⟩ := Pc.inside_bound (counted.placed j) inside second
  obtain ⟨reader, active⟩ := Pc.unreleased_below (counted.placed i) first (by omega)
  rcases conflict with rfl | rfl
  · cases reader
  · have nobody := counted.nobody_reads (writing rfl).2.symm i
    omega

theorem Pc.inside_request {pc : Pc} {mode : Mode} (inside : pc.inside = some mode) :
    ∃ order, pc.request = some (mode, order) := by
  cases pc with
  | admitting order => cases inside; exact ⟨order, rfl⟩
  | admitted order => cases inside; exact ⟨order, rfl⟩
  | holds mode order => cases inside; exact ⟨order, rfl⟩
  | _ => cases inside

/-- Two clients inside have drawn different requests, so the order of tickets excludes them. -/
theorem Counted.writerAlone {s : LockState clients} {released passed : Nat}
    (counted : Counted s released passed) : s.WriterAlone := by
  intro i j different writing
  obtain ⟨mine, drewMine⟩ := Pc.inside_request writing
  cases inside : (s.pc j).inside with
  | none => rfl
  | some mode =>
    obtain ⟨theirs, drewTheirs⟩ := Pc.inside_request inside
    rcases Nat.lt_trichotomy mine theirs with before | same | before
    · rw [← inside]
      exact counted.ticketOrder i j mine theirs .writer mode drewMine drewTheirs (Or.inl rfl) before
    · subst same
      exact absurd (counted.distinct i j mine (Pc.request_order drewMine) (Pc.request_order drewTheirs))
        different
    · have alone := counted.ticketOrder j i theirs mine mode .writer drewTheirs drewMine (Or.inr rfl) before
      rw [writing] at alone
      cases alone

def drawnState (clients count : Nat) : LockState clients where
  lock := count * incTicketNext
  drawn := count
  pc c := if c.val < count then .drew .writer (c.val % 256) c.val else .outside

theorem drawnState_next {count : Nat} (next : count < clients) (small : count < 2^31) :
    (drawnState clients count).advance ⟨count, next⟩ .writer = drawnState clients (count + 1) := by
  have position : (drawnState clients count).pc ⟨count, next⟩ = .outside := by simp [drawnState]
  simp only [LockState.advance, position]
  simp only [drawnState, LockState.mk.injEq, true_and]
  refine ⟨?_, ?_⟩
  · simp only [fetchAndAdd, incTicketNext]
    omega
  · funext c
    by_cases same : c = ⟨count, next⟩
    · subst same
      simp [ticketNext, byteAt, incTicketNext]
    · have other : c.val ≠ count := fun equal => same (Fin.ext equal)
      rw [Function.update_of_ne same]
      have cases : c.val < count ↔ c.val < count + 1 := by omega
      simp only [cases]

theorem drawnState_reachable : ∀ count, count ≤ clients → count < 2^31 →
    (drawnState clients count).Reachable
  | 0, _, _ => .start (by simp [drawnState, LockState.initial])
  | count + 1, bound, small =>
    .next (drawnState_reachable count (by omega) (by omega))
      ⟨⟨count, bound⟩, .writer, (drawnState_next bound (by omega)).symm⟩

theorem LockState.Reachable.advance {s : LockState clients} (reached : s.Reachable)
    (client : Fin clients) (choice : Mode) : (s.advance client choice).Reachable :=
  .next reached ⟨client, choice, rfl⟩

/-- A writer whose ticket equals the active one clears the pad of `ticket_next` and enters. -/
theorem drew_enters {s : LockState clients} (reached : s.Reachable) (client : Fin clients)
    {order : Nat} (position : s.pc client = .drew .writer 0 order)
    (active : ticketActiveWriter s.lock = 0) :
    ∃ t : LockState clients, t.Reachable ∧ ticketActiveWriter t.lock = 0 ∧
      t.pc = Function.update s.pc client (.holds .writer order) := by
  have spun := (reached.advance client .writer).advance client .writer
  have zero : ticketActiveWriter (clearPadTicketNext s.lock) = 0 := by
    simp only [ticketActiveWriter, byteAt, clearPadTicketNext, clearByte, Nat.reducePow, Nat.div_one] at *
    omega
  simp only [LockState.advance, position, LockState.goto, Function.update_self, zero, ↓reduceIte,
    Function.update_idem] at spun
  exact ⟨_, spun, zero, rfl⟩

/-- With one client more than tickets the two holders of ticket 0 are inside together. -/
theorem two_writers (many : 256 < clients) :
    ∃ s : LockState clients, s.Reachable ∧ ¬ s.WriterAlone := by
  have start : (drawnState clients 257).Reachable := drawnState_reachable 257 many (by decide)
  have first : (drawnState clients 257).pc ⟨0, by omega⟩ = .drew .writer 0 0 := by simp [drawnState]
  obtain ⟨s, reached, active, places⟩ := drew_enters start ⟨0, by omega⟩ first (by
    simp [drawnState, ticketActiveWriter, byteAt, incTicketNext])
  have different : (⟨256, many⟩ : Fin clients) ≠ ⟨0, by omega⟩ := by simp
  have second : s.pc ⟨256, many⟩ = .drew .writer 0 256 := by
    rw [places, Function.update_of_ne different]
    simp [drawnState]
  obtain ⟨t, reached', _, places'⟩ := drew_enters reached ⟨256, many⟩ second active
  refine ⟨t, reached', fun alone => ?_⟩
  have inside := alone ⟨256, many⟩ ⟨0, by omega⟩ different (by rw [places']; simp [Pc.inside])
  rw [places', Function.update_of_ne different.symm, places, Function.update_self] at inside
  cases inside

/-- The read/write ticket lock is exclusive and fair for exactly up to 256 clients. -/
theorem rwLock_exclusive_fair_iff (clients : Nat) :
    (∀ s : LockState clients, s.Reachable → s.WriterAlone ∧ s.TicketOrder) ↔ clients ≤ 256 := by
  constructor
  · intro safe
    by_contra many
    obtain ⟨s, reached, together⟩ := two_writers (Nat.lt_of_not_le many)
    exact together (safe s reached).1
  · intro small s reached
    obtain ⟨released, passed, counted⟩ := invariant_reachable small reached
    exact ⟨counted.writerAlone, counted.ticketOrder⟩

end SharedHashFile.Lock
