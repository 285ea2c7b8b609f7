import SharedHashFile.Store.AddSpec

namespace SharedHashFile.Store

open ByteMemory Program

section Counts

variable (cfg : Config) (hash : Hash) (key : List UInt8)

/-- `shf_val_long` is the sum, which the key has as its value, or has none where it is 0. -/
structure CountIs (sum : BitVec 64) (s : State Disk) : Prop where
  long : s.shared.tls.valLong = sum.toNat
  stored : sum ≠ 0 → ∃ ref, s.items cfg (hash.slot ref) = some ⟨key, leBytes 8 sum.toNat⟩ ∧
    ∀ other, ∀ item ∈ s.items cfg (hash.slot other), item.key = key → other = ref
  missing : sum = 0 → (s.items cfg).Missing hash key

/-- So it is after each of the calls of `shf_add_key_val`. -/
def CountsThrough : BitVec 64 → List (BitVec 64) → State Disk → Prop
  | _, [], _ => True
  | sum, add :: rest, s => CountIs cfg hash key (sum + add) (addKeyVal mapped cfg add.toNat s).state ∧
      CountsThrough (sum + add) rest (addKeyVal mapped cfg add.toNat s).state

def AllReturn : List (BitVec 64) → State Disk → Prop
  | [], _ => True
  | add :: rest, s => (addKeyVal mapped cfg add.toNat s).value.isOk = true ∧ (addKeyVal mapped cfg add.toNat s).peak < 2^32 ∧
      AllReturn rest (addKeyVal mapped cfg add.toNat s).state

instance decidableAllReturn : (amounts : List (BitVec 64)) → (s : State Disk) → Decidable (AllReturn cfg amounts s)
  | [], _ => .isTrue trivial
  | add :: rest, s =>
    have := decidableAllReturn rest (addKeyVal mapped cfg add.toNat s).state
    inferInstanceAs (Decidable (_ ∧ _ ∧ AllReturn cfg rest (addKeyVal mapped cfg add.toNat s).state))

def NeverZeroToZero : BitVec 64 → List (BitVec 64) → Prop
  | _, [] => True
  | sum, add :: rest => (sum = 0 → add ≠ 0) ∧ NeverZeroToZero (sum + add) rest

instance decidableNeverZeroToZero : (sum : BitVec 64) → (amounts : List (BitVec 64)) →
    Decidable (NeverZeroToZero sum amounts)
  | _, [] => .isTrue trivial
  | sum, add :: rest =>
    have := decidableNeverZeroToZero (sum + add) rest
    inferInstanceAs (Decidable ((sum = 0 → add ≠ 0) ∧ NeverZeroToZero (sum + add) rest))

def counterAfter (stored : Option (BitVec 64)) (add : BitVec 64) : Option (BitVec 64) :=
  match stored with
  | none => some add
  | some count => if count + add = 0 then none else some (count + add)

end Counts

section Adding

variable {cfg : Config} {s : State Disk} {b b' : Bindings} {hash : Hash} {key : List UInt8} {stored : Option (BitVec 64)}
  {add : BitVec 64}

structure Counter (cfg : Config) (hash : Hash) (key : List UInt8) (s : State Disk) (b : Bindings)
    (stored : Option (BitVec 64)) : Prop where
  inUse : InUse cfg s b
  ready : s.shared.tls.For hash key
  counts : b.Counts hash key stored

theorem AddOutcome.counts {code long : Nat} (outcome : AddOutcome b hash key add code long b')
    (counts : b.Counts hash key stored) :
    long = (stored.getD 0 + add).toNat ∧ b'.Counts hash key (counterAfter stored add) := by
  unfold AddOutcome at outcome
  cases stored with
  | none =>
    rw [counts_none_locate counts] at outcome
    rcases outcome with ⟨_, rfl, ref, _, rfl⟩
    exact ⟨congrArg BitVec.toNat (zero_add add).symm, counts_update fun other binding bound same => absurd same (counts other binding bound)⟩
  | some count =>
    rcases counts with ⟨ref, bound, only⟩
    rw [counts_some_locate bound only] at outcome
    rcases outcome with ⟨binding, bound', effect⟩
    rw [bound] at bound'
    cases bound'
    have sum : (leValue ((leBytes 8 count.toNat).take 8) + add.toNat) % 2^64 = (count + add).toNat := by
      rw [List.take_of_length_le (Nat.le_of_eq (leBytes_length _ _)), leValue_counter, BitVec.toNat_add]
    have rest : (leBytes 8 count.toNat).drop 8 = [] := List.drop_of_length_le (Nat.le_of_eq (leBytes_length _ _))
    rw [if_pos (Nat.le_of_eq (leBytes_length _ _).symm), sum, rest] at effect
    rcases effect with ⟨_, rfl, rfl⟩
    refine ⟨rfl, ?_⟩
    unfold counterAfter
    dsimp only
    by_cases zero : count + add = 0
    · have none_ : (count + add).toNat = 0 := congrArg BitVec.toNat zero
      rw [if_pos zero, if_pos none_]
      exact counts_delete only
    · have some_ : (count + add).toNat ≠ 0 := fun none_ => zero (BitVec.eq_of_toNat_eq none_)
      rw [if_neg zero, if_neg some_, List.append_nil]
      exact counts_update only

def sumCounter (sum : BitVec 64) : Option (BitVec 64) := if sum = 0 then none else some sum

theorem counterAfter_sum {sum add : BitVec 64} (never : sum = 0 → add ≠ 0) :
    counterAfter (sumCounter sum) add = sumCounter (sum + add) := by
  unfold sumCounter
  by_cases none_ : sum = 0
  · rw [if_pos none_, none_, zero_add, if_neg (never none_)]
    rfl
  · rw [if_neg none_]
    rfl

theorem sumCounter_getD (sum : BitVec 64) : (sumCounter sum).getD 0 = sum := by
  unfold sumCounter
  split
  · rename_i none_
    exact none_.symm
  · rfl

theorem Counter.countIs {sum : BitVec 64} (counter : Counter cfg hash key s b (sumCounter sum))
    (long : s.shared.tls.valLong = sum.toNat) : CountIs cfg hash key sum s := by
  rcases counter with ⟨inUse, _, counts⟩
  refine ⟨long, ?_, ?_⟩
  · intro some_
    rw [sumCounter, if_neg some_] at counts
    rcases counts with ⟨ref, bound, only⟩
    rw [inUse.items]
    refine ⟨ref, Bindings.items_some.mpr ⟨_, bound⟩, ?_⟩
    rintro other ⟨otherKey, val⟩ there same
    rcases Bindings.items_some.mp there with ⟨rnd, bound'⟩
    exact only other _ bound' same
  · intro none_
    rw [sumCounter, if_pos none_] at counts
    rw [inUse.items]
    exact counts_none_iff.mp counts

theorem Counter.not_countIs (counter : Counter cfg hash key s b (some 0)) : ¬ CountIs cfg hash key 0 s := by
  rintro ⟨_, _, missing⟩
  have nowhere := missing rfl
  rw [counter.inUse.items, ← counts_none_iff] at nowhere
  rcases counter.counts with ⟨ref, bound, _⟩
  exact nowhere ref _ bound rfl

theorem Counter.after (variable_ : cfg.isFixedKeyValLen = false) (counter : Counter cfg hash key s b stored)
    (ended : (addKeyVal mapped cfg add.toNat s).value.isOk = true) (within : (addKeyVal mapped cfg add.toNat s).peak < 2^32) :
    (addKeyVal mapped cfg add.toNat s).state.shared.tls.valLong = (stored.getD 0 + add).toNat ∧
      ∃ b', Counter cfg hash key (addKeyVal mapped cfg add.toNat s).state b' (counterAfter stored add) := by
  have ends := @InUse.addKeyVal_ends _ _ _ _ _ add counter.inUse (Config.linkable_variable variable_) counter.ready
    (fun _ => Config.accepts_variable variable_ _ _) within
  cases value : (addKeyVal mapped cfg add.toNat s).value with
  | error e =>
    rw [value] at ended
    cases ended
  | ok code =>
    rw [value] at ends
    rcases ends with ⟨ready', b', inUse', outcome⟩
    rcases outcome.counts counter.counts with ⟨long, counts'⟩
    exact ⟨long, b', inUse', ready', counts'⟩

theorem Counter.counts_iff_fits (variable_ : cfg.isFixedKeyValLen = false) {amounts : List (BitVec 64)}
    {sum : BitVec 64} (counter : Counter cfg hash key s b (sumCounter sum)) (returns : AllReturn cfg amounts s) :
    CountsThrough cfg hash key sum amounts s ↔ NeverZeroToZero sum amounts := by
  induction amounts generalizing s b sum with
  | nil => exact Iff.rfl
  | cons add rest ih =>
    rcases returns with ⟨ended, within, returns⟩
    rcases counter.after variable_ ended within with ⟨long, b', counter'⟩
    rw [sumCounter_getD] at long
    by_cases never : sum = 0 → add ≠ 0
    · rw [counterAfter_sum never] at counter'
      exact and_congr (iff_of_true (counter'.countIs long) never) (ih counter' returns)
    · rcases Classical.not_imp.mp never with ⟨rfl, zero⟩
      rw [not_not.mp zero] at counter' ⊢
      refine iff_of_false (fun counts => ?_) fun condition => condition.1 rfl rfl
      exact counter'.not_countIs counts.1

/-- After each of any calls which add to a key that is absent, its counter is the sum of what was added, and is there
    where the sum is not 0, if and only if no call adds 0 to a sum of 0. -/
theorem countsThrough_iff (cfg : Config) (variable_ : cfg.isFixedKeyValLen = false) (vfs : Nat → Nat) (tls : Tls)
    (sections : List Section) (hash : Hash) (key : List UInt8) (s : State Disk) (process : Nat) (mine : Tls)
    (amounts : List (BitVec 64)) (attained : Attained cfg vfs tls sections s) (ready : mine.For hash key)
    (missing : (s.items cfg).Missing hash key)
    (returns : AllReturn cfg amounts (s.takenBy process mine)) :
    CountsThrough cfg hash key 0 amounts (s.takenBy process mine) ↔ NeverZeroToZero 0 amounts := by
  rcases attained.inUse (Config.linkable_variable variable_) fun part _ => part.fits_variable variable_ with ⟨b, inUse⟩
  rw [inUse.items, ← counts_none_iff] at missing
  exact Counter.counts_iff_fits variable_ ⟨inUse.takenBy process mine, ready, missing⟩ returns

def newStore : State Disk := State.initial (fun _ => 2^40) (smallTls [])

theorem newStore_returns : AllReturn smallConfig [5, -5] (newStore.takenBy 1 (smallTls [1])) ∧
    AllReturn smallConfig [0] (newStore.takenBy 1 (smallTls [1])) ∧
    ¬ ((addKeyVal mapped smallConfig (0 : BitVec 64).toNat (newStore.takenBy 1 (smallTls [1]))).state.items
      smallConfig).Missing 0 [1] := by
  decide +kernel

theorem newStore_countsThrough : CountsThrough smallConfig 0 [1] 0 [5, -5] (newStore.takenBy 1 (smallTls [1])) :=
  (countsThrough_iff smallConfig rfl (fun _ => 2^40) (smallTls []) [] 0 [1] newStore 1 (smallTls [1]) [5, -5]
    (initial_attained _ _ _) ⟨rfl, rfl, rfl⟩ (initial_missing _ _ _ _ _) newStore_returns.1).mpr (by decide)

/-- A call which adds 0 creates the key. -/
theorem newStore_not_countsThrough : ¬ ∀ amounts, AllReturn smallConfig amounts (newStore.takenBy 1 (smallTls [1])) →
    CountsThrough smallConfig 0 [1] 0 amounts (newStore.takenBy 1 (smallTls [1])) := by
  intro counts
  rcases newStore_returns with ⟨_, returns, there⟩
  exact there ((counts [0] returns).1.missing rfl)

end Adding

end SharedHashFile.Store
