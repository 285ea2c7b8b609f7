import Mathlib.Algebra.BigOperators.Fin
import Mathlib.Data.BitVec
import Mathlib.Tactic.LinearCombination
import Mathlib.Tactic.Ring
import SharedHashFile.Store.ClientLaws
import SharedHashFile.Store.Entries
import SharedHashFile.Store.SectionSpec

namespace SharedHashFile.Store

open ByteMemory Program

/-- What a call of `shf_add_key_val` does next. -/
inductive AddPhase
  /-- `shf_add_key_val_atom` -/
  | adding
  /-- `shf_del_key_val` -/
  | deleting
  /-- `shf_put_key_val` -/
  | creating
  | returned
  deriving DecidableEq

/-- A call of `shf_add_key_val`, by which process and of how much. -/
structure AddCall where
  process : Nat
  add : BitVec 64

/-- The critical section the call is about to enter. -/
def AddCall.section (call : AddCall) (tls : Tls) : AddPhase → Option Section
  | .adding => some ⟨call.process, { tls with valLong := call.add.toNat }, .find uidNone .atomAdd⟩
  | .deleting => some ⟨call.process, tls, .find uidNone .delete⟩
  | .creating => some ⟨call.process, tls, .put (.copy (leBytes 8 call.add.toNat))⟩
  | .returned => none

/-- What the call does with the section's result. -/
def AddCall.after (call : AddCall) (result : Option Nat) (tls : Tls) : AddPhase → AddPhase × Tls
  | .adding =>
    if result = some retKeyFound then (if tls.valLong = 0 then .deleting else .returned, tls)
    else if result = some retKeyNone then (.creating, tls)
    else (.returned, tls)
  | .creating => if result = none then (.creating, tls) else (.returned, { tls with valLong := call.add.toNat })
  | .deleting | .returned => (.returned, tls)

/-- Calls of `shf_add_key_val` on one store, each with its thread's variables. -/
structure Adders (n : Nat) where
  store : State Disk
  tls : Fin n → Tls
  phase : Fin n → AddPhase

section Steps

variable {n : Nat} (cfg : Config) (calls : Fin n → AddCall)

def Adders.section (a : Adders n) (i : Fin n) : Option Section := (calls i).section (a.tls i) (a.phase i)

/-- A critical section of one of the calls. -/
def Adders.step (a : Adders n) (i : Fin n) : Option (Adders n) :=
  (a.section calls i).bind fun part =>
    let run := runProcesses mapped cfg [part] a.store
    match run.value with
    | .ok [(result, tls)] =>
      let next := (calls i).after result tls (a.phase i)
      some ⟨run.state, Function.update a.tls i next.2, Function.update a.phase i next.1⟩
    | _ => none

def Adders.steps : List (Fin n) → Adders n → Option (Adders n)
  | [], a => some a
  | i :: rest, a => (a.step cfg calls i).bind (Adders.steps rest)

def counterRead : Except Stop (List (Option Nat × Tls)) → Option Nat
  | .ok [(some code, tls)] => some (if code = retKeyFound then leValue tls.val else 0)
  | _ => none

def ReadsCount (hash : Hash) (key : List UInt8) (s : State Disk) (count : BitVec 64) : Prop :=
  ∀ process tls, tls.hash = hash → tls.hashKey = key →
    let run := runProcesses mapped cfg [⟨process, tls, .find uidNone .copyVal⟩] s
    run.peak < 2^32 → ∀ read ∈ counterRead run.value, read = count.toNat

structure Tls.For (hash : Hash) (key : List UInt8) (tls : Tls) : Prop where
  hashed : tls.hash = hash
  keyed : tls.hashKey = key
  ttl : tls.ttl = 0

structure Adders.Begins (hash : Hash) (key : List UInt8) (a : Adders n) : Prop where
  adding : ∀ i, a.phase i = .adding
  ready : ∀ i, (a.tls i).For hash key
  missing : (a.store.items cfg).Missing hash key

/-- Once all calls have returned, the counter is the sum of what they added. -/
def AddsUp (hash : Hash) (key : List UInt8) (order : List (Fin n)) (a : Adders n) : Prop :=
  ∀ a', a.steps cfg calls order = some a' → (∀ i, a'.phase i = .returned) →
    ReadsCount cfg hash key a'.store (∑ i, (calls i).add)

/-- What the next section of a call needs: a put finds no entry of its key, a delete finds the counter at 0. -/
structure Adders.Undisturbed (hash : Hash) (key : List UInt8) (a : Adders n) (i : Fin n) : Prop where
  create : a.phase i = .creating → (a.store.items cfg).Missing hash key
  delete : a.phase i = .deleting → ∀ ref : Fin 16, ∀ item ∈ a.store.items cfg (hash.slot ref),
    item.key = key → leValue item.val = 0
  within : ∀ part ∈ a.section calls i, (runProcesses mapped cfg [part] a.store).peak < 2^32

def Adders.AllUndisturbed (hash : Hash) (key : List UInt8) : List (Fin n) → Adders n → Prop
  | [], _ => True
  | i :: rest, a => a.Undisturbed cfg calls hash key i ∧
      ∀ a' ∈ a.step cfg calls i, Adders.AllUndisturbed hash key rest a'

instance (hash : Hash) (key : List UInt8) (a : Adders n) (i : Fin n) :
    Decidable (a.Undisturbed cfg calls hash key i) :=
  decidable_of_iff ((a.phase i = .creating → (a.store.items cfg).Missing hash key) ∧
    (a.phase i = .deleting → ∀ ref : Fin 16, ∀ item ∈ a.store.items cfg (hash.slot ref),
      item.key = key → leValue item.val = 0) ∧
    ∀ part ∈ a.section calls i, (runProcesses mapped cfg [part] a.store).peak < 2^32)
    ⟨fun ⟨create, delete, within⟩ => ⟨create, delete, within⟩, fun ⟨create, delete, within⟩ => ⟨create, delete, within⟩⟩

instance Adders.decidableAllUndisturbed (hash : Hash) (key : List UInt8) : (order : List (Fin n)) → (a : Adders n) →
    Decidable (a.AllUndisturbed cfg calls hash key order)
  | [], _ => .isTrue trivial
  | i :: rest, a =>
    have (a' : Adders n) : Decidable (a'.AllUndisturbed cfg calls hash key rest) := decidableAllUndisturbed hash key rest a'
    inferInstanceAs (Decidable (a.Undisturbed cfg calls hash key i ∧
      ∀ a' ∈ a.step cfg calls i, Adders.AllUndisturbed cfg calls hash key rest a'))

end Steps

/-- The key is bound nowhere in its triple, or once to a counter. -/
def Bindings.Counts (b : Bindings) (hash : Hash) (key : List UInt8) : Option (BitVec 64) → Prop
  | none => ∀ ref binding, b (hash.slot ref) = some binding → binding.key ≠ key
  | some count => ∃ ref, b (hash.slot ref) = some ⟨hash.rnd, key, leBytes 8 count.toNat⟩ ∧
      ∀ other binding, b (hash.slot other) = some binding → binding.key = key → other = ref

section Counting

variable {b : Bindings} {hash : Hash} {key : List UInt8} {count : BitVec 64} {ref : Fin 16}

theorem counts_none_locate (counts : b.Counts hash key none) : b.locate uidNone hash key = none := by
  cases located : b.locate uidNone hash key with
  | none => rfl
  | some place =>
    rcases Bindings.locate_in_triple located with ⟨ref, binding, rfl, bound, same⟩
    exact absurd same (counts ref binding bound)

theorem counts_some_locate (bound : b (hash.slot ref) = some ⟨hash.rnd, key, leBytes 8 count.toNat⟩)
    (only : ∀ other binding, b (hash.slot other) = some binding → binding.key = key → other = ref) :
    b.locate uidNone hash key = some (hash.slot ref) := by
  cases located : b.locate uidNone hash key with
  | none =>
    rw [Bindings.locate, if_pos rfl] at located
    have search := List.find?_eq_none.mp (Option.map_eq_none_iff.mp located) ref (List.mem_finRange _)
    apply absurd _ search
    unfold Bindings.isAt
    rw [bound]
    exact decide_eq_true ⟨rfl, rfl⟩
  | some place =>
    rcases Bindings.locate_in_triple located with ⟨other, binding, rfl, there, same⟩
    rw [only other binding there same]

theorem update_slot (binding : Option Binding) (other : Fin 16) :
    Function.update b (hash.slot ref) binding (hash.slot other) = if other = ref then binding else b (hash.slot other) := by
  rw [Function.update_apply]
  by_cases same : other = ref
  · rw [if_pos same, if_pos (congrArg hash.slot same)]
  · rw [if_neg same, if_neg fun slots => same (congrArg Slot.ref slots)]

theorem counts_update (only : ∀ other binding, b (hash.slot other) = some binding → binding.key = key → other = ref) :
    Bindings.Counts (Function.update b (hash.slot ref) (some ⟨hash.rnd, key, leBytes 8 count.toNat⟩)) hash key (some count) := by
  refine ⟨ref, Function.update_self _ _ _, fun other binding bound same => ?_⟩
  rw [update_slot] at bound
  split at bound
  · assumption
  · exact only other binding bound same

theorem counts_delete (only : ∀ other binding, b (hash.slot other) = some binding → binding.key = key → other = ref) :
    Bindings.Counts (Function.update b (hash.slot ref) none) hash key none := by
  intro other binding bound same
  rw [update_slot] at bound
  split at bound
  · cases bound
  · rename_i elsewhere
    exact elsewhere (only other binding bound same)

theorem counts_none_iff : b.Counts hash key none ↔ b.items.Missing hash key := by
  constructor
  · intro counts ref item there
    rcases Bindings.items_some.mp there with ⟨rnd, bound⟩
    exact counts ref _ bound
  · rintro missing ref ⟨rnd, other, val⟩ bound
    exact missing ref ⟨other, val⟩ (Bindings.items_some.mpr ⟨rnd, bound⟩)

theorem counterRead_some {value : Except Stop (List (Option Nat × Tls))} {read : Nat} (some_ : counterRead value = some read) :
    ∃ code tls, value = .ok [(some code, tls)] ∧ read = if code = retKeyFound then leValue tls.val else 0 := by
  unfold counterRead at some_
  split at some_
  · rename_i code tls
    exact ⟨code, tls, rfl, (Option.some.inj some_).symm⟩
  · cases some_

theorem leValue_counter (count : BitVec 64) : leValue (leBytes 8 count.toNat) = count.toNat := by
  rw [leValue_leBytes]
  exact Nat.mod_eq_of_lt count.isLt

theorem counts_reads {stored : Option (BitVec 64)} {tls tls' : Tls} {code : Nat} {b' : Bindings}
    (counts : b.Counts tls.hash tls.hashKey stored) (outcome : FindKeyAnd.copyVal.Outcome b uidNone tls code tls' b') :
    (if code = retKeyFound then leValue tls'.val else 0) = (stored.getD 0).toNat := by
  unfold FindKeyAnd.Outcome at outcome
  cases stored with
  | none =>
    rw [counts_none_locate counts] at outcome
    rw [outcome.1]
    rfl
  | some count =>
    rcases counts with ⟨ref, bound, only⟩
    rw [counts_some_locate bound only] at outcome
    rcases outcome with ⟨binding, keyAddr, valAddr, bound', effect, _⟩
    rw [bound] at bound'
    cases bound'
    simp only [FindKeyAnd.effect, Prod.mk.injEq] at effect
    rcases effect with ⟨rfl, rfl, _⟩
    exact leValue_counter count

theorem Tls.For.lookedUp {tls : Tls} (ready : tls.For hash key) (uid : Nat) (place : Option Slot)
    (keyAddr valAddr : Option Nat) : (tls.lookedUp uid place keyAddr valAddr).For hash key :=
  ⟨ready.hashed, ready.keyed, ready.ttl⟩

theorem Tls.For.withLong {tls : Tls} (ready : tls.For hash key) (long : Nat) : Tls.For hash key { tls with valLong := long } :=
  ⟨ready.hashed, ready.keyed, ready.ttl⟩

theorem Tls.For.withUid {tls : Tls} (ready : tls.For hash key) (uid : Nat) : Tls.For hash key { tls with uid := uid } :=
  ⟨ready.hashed, ready.keyed, ready.ttl⟩

theorem counts_add {stored : Option (BitVec 64)} {tls tls' : Tls} {result : Option Nat} {b' : Bindings} {add : BitVec 64}
    (ready : tls.For hash key) (counts : b.Counts hash key stored) (amount : tls.valLong = add.toNat)
    (outcome : (Work.find uidNone .atomAdd).Outcome b tls result tls' b') : tls'.For hash key ∧
      ((stored = none ∧ result = some retKeyNone ∧ b' = b) ∨ ∃ count, stored = some count ∧ result = some retKeyFound ∧
        tls'.valLong = (count + add).toNat ∧ b'.Counts hash key (some (count + add))) := by
  rcases outcome with ⟨code, rfl, outcome⟩
  unfold FindKeyAnd.Outcome at outcome
  rw [ready.hashed, ready.keyed] at outcome
  cases stored with
  | none =>
    rw [counts_none_locate counts] at outcome
    rcases outcome with ⟨rfl, rfl, keyAddr, rfl⟩
    exact ⟨ready.lookedUp _ _ _ _, .inl ⟨rfl, rfl, rfl⟩⟩
  | some count =>
    rcases counts with ⟨ref, bound, only⟩
    rw [counts_some_locate bound only] at outcome
    rcases outcome with ⟨binding, keyAddr, valAddr, bound', effect, b'_eq⟩
    rw [bound] at bound'
    cases bound'
    have sum : (leValue ((leBytes 8 count.toNat).take 8) + tls.valLong) % 2^64 = (count + add).toNat := by
      rw [List.take_of_length_le (Nat.le_of_eq (leBytes_length _ _)), leValue_counter, amount, BitVec.toNat_add]
    have rest : (leBytes 8 count.toNat).drop 8 = [] := List.drop_of_length_le (Nat.le_of_eq (leBytes_length _ _))
    have ready' := ready.lookedUp uidNone (some (hash.slot ref)) keyAddr valAddr
    have long := Tls.lookedUp_valLong tls uidNone (some (hash.slot ref)) keyAddr valAddr
    generalize tls.lookedUp uidNone (some (hash.slot ref)) keyAddr valAddr = tls1 at effect ready' long
    simp only [FindKeyAnd.effect, long, leBytes_length, Nat.le_refl, if_true, sum, rest, List.append_nil,
      Prod.mk.injEq] at effect
    rcases effect with ⟨rfl, rfl, stored'⟩
    rw [stored'] at b'_eq
    refine ⟨ready'.withLong _, .inr ⟨count, rfl, rfl, rfl, ?_⟩⟩
    rw [b'_eq]
    exact counts_update only

theorem counts_deleted {stored : Option (BitVec 64)} {tls tls' : Tls} {result : Option Nat} {b' : Bindings}
    (ready : tls.For hash key) (counts : b.Counts hash key stored)
    (outcome : (Work.find uidNone .delete).Outcome b tls result tls' b') : tls'.For hash key ∧ b'.Counts hash key none := by
  rcases outcome with ⟨code, rfl, outcome⟩
  unfold FindKeyAnd.Outcome at outcome
  rw [ready.hashed, ready.keyed] at outcome
  cases stored with
  | none =>
    rw [counts_none_locate counts] at outcome
    rcases outcome with ⟨rfl, rfl, keyAddr, rfl⟩
    exact ⟨ready.lookedUp _ _ _ _, counts⟩
  | some count =>
    rcases counts with ⟨ref, bound, only⟩
    rw [counts_some_locate bound only] at outcome
    rcases outcome with ⟨binding, keyAddr, valAddr, bound', effect, b'_eq⟩
    have ready' := ready.lookedUp uidNone (some (hash.slot ref)) keyAddr valAddr
    generalize tls.lookedUp uidNone (some (hash.slot ref)) keyAddr valAddr = tls1 at effect ready'
    simp only [FindKeyAnd.effect, Prod.mk.injEq] at effect
    rcases effect with ⟨rfl, rfl, deleted⟩
    rw [deleted] at b'_eq
    refine ⟨⟨ready'.hashed, ready'.keyed, rfl⟩, ?_⟩
    rw [b'_eq]
    exact counts_delete only

theorem counts_created {tls tls' : Tls} {result : Option Nat} {b' : Bindings} {add : BitVec 64}
    (ready : tls.For hash key) (counts : b.Counts hash key none)
    (outcome : (Work.put (.copy (leBytes 8 add.toNat))).Outcome b tls result tls' b') : tls'.For hash key ∧
      ((result = none ∧ b' = b) ∨ result = some retKeyPut ∧ b'.Counts hash key (some add)) := by
  rcases outcome with ⟨rfl, rfl, rfl⟩ | ⟨ref, rfl, free, rfl, tls'_eq⟩
  · exact ⟨ready, .inl ⟨rfl, rfl⟩⟩
  · constructor
    · rw [tls'_eq]
      exact ready.withUid _
    · rw [ready.hashed, ready.keyed]
      exact .inr ⟨rfl, counts_update fun other binding bound same => absurd same (counts other binding bound)⟩

end Counting

section Runs

variable {n : Nat} {cfg : Config} {calls : Fin n → AddCall} {hash : Hash} {key : List UInt8} {a a' : Adders n}
  {b : Bindings} {stored : Option (BitVec 64)} {i : Fin n}

def AddPhase.owed (add : BitVec 64) : AddPhase → BitVec 64
  | .adding | .creating => add
  | .deleting | .returned => 0

/-- The counter, and what is still to be added, make up the sum. -/
structure Adders.Counting (cfg : Config) (calls : Fin n → AddCall) (hash : Hash) (key : List UInt8) (a : Adders n)
    (b : Bindings) (stored : Option (BitVec 64)) : Prop where
  inUse : InUse cfg a.store b
  ready : ∀ i, (a.tls i).For hash key
  counts : b.Counts hash key stored
  balance : stored.getD 0 + ∑ i, (a.phase i).owed (calls i).add = ∑ i, (calls i).add

theorem Adders.step_some (step : a.step cfg calls i = some a') : ∃ part result tls, a.section calls i = some part ∧
    (runProcesses mapped cfg [part] a.store).value = .ok [(result, tls)] ∧
    a' = ⟨(runProcesses mapped cfg [part] a.store).state,
      Function.update a.tls i ((calls i).after result tls (a.phase i)).2,
      Function.update a.phase i ((calls i).after result tls (a.phase i)).1⟩ := by
  rcases Option.bind_eq_some_iff.mp step with ⟨part, next, ran⟩
  dsimp only at ran
  split at ran
  · rename_i result tls value
    exact ⟨part, result, tls, next, value, (Option.some.inj ran).symm⟩
  · cases ran

theorem owed_update (phase : AddPhase) : ∑ j, (Function.update a.phase i phase j).owed (calls j).add +
    (a.phase i).owed (calls i).add = ∑ j, (a.phase j).owed (calls j).add + phase.owed (calls i).add := by
  have before := Finset.add_sum_erase Finset.univ (fun j => (a.phase j).owed (calls j).add) (Finset.mem_univ i)
  have after := Finset.add_sum_erase Finset.univ (fun j => (Function.update a.phase i phase j).owed (calls j).add)
    (Finset.mem_univ i)
  have others : ∑ j ∈ Finset.univ.erase i, (Function.update a.phase i phase j).owed (calls j).add =
      ∑ j ∈ Finset.univ.erase i, (a.phase j).owed (calls j).add :=
    Finset.sum_congr rfl fun j member => by rw [Function.update_of_ne (Finset.ne_of_mem_erase member)]
  rw [others] at after
  simp only [Function.update_self] at after
  rw [← after, ← before]
  ring

/-- A step keeps the balance, if what its call stops to owe has come to the counter. -/
theorem Adders.Counting.moved (counting : a.Counting cfg calls hash key b stored) {store : State Disk} {b' : Bindings}
    {stored' : Option (BitVec 64)} {tls : Tls} {phase : AddPhase} (inUse : InUse cfg store b') (ready : tls.For hash key)
    (counts : b'.Counts hash key stored') (moves : stored'.getD 0 + phase.owed (calls i).add =
      stored.getD 0 + (a.phase i).owed (calls i).add) :
    Adders.Counting cfg calls hash key ⟨store, Function.update a.tls i tls, Function.update a.phase i phase⟩ b' stored' := by
  refine ⟨inUse, fun j => ?_, counts, ?_⟩
  · change (Function.update a.tls i tls j).For hash key
    rw [Function.update_apply]
    split
    · exact ready
    · exact counting.ready j
  · have owed := @owed_update n calls a i phase
    have balance := counting.balance
    change stored'.getD 0 + ∑ j, (Function.update a.phase i phase j).owed (calls j).add = _
    rw [← balance]
    linear_combination owed + moves

theorem Adders.Counting.step (variable_ : cfg.isFixedKeyValLen = false) (counting : a.Counting cfg calls hash key b stored)
    (undisturbed : a.Undisturbed cfg calls hash key i) (step : a.step cfg calls i = some a') :
    ∃ b' stored', a'.Counting cfg calls hash key b' stored' := by
  rcases Adders.step_some step with ⟨part, result, tls, next, value, rfl⟩
  have linkable := Config.linkable_variable variable_
  have mine := counting.ready i
  have within := undisturbed.within part next
  unfold Adders.section at next
  cases phase : a.phase i with
  | returned =>
    rw [phase] at next
    cases next
  | adding =>
    rw [phase] at next
    cases next
    rcases counting.inUse.section_outcome linkable within value trivial with ⟨b', inUse', outcome⟩
    rcases counts_add (mine.withLong _) counting.counts rfl outcome with
      ⟨ready', ⟨rfl, rfl, rfl⟩ | ⟨count, rfl, rfl, long, counts'⟩⟩
    · refine ⟨b', none, counting.moved inUse' ready' counting.counts ?_⟩
      rw [phase]
      rfl
    · refine ⟨b', some (count + (calls i).add), counting.moved inUse' ?_ counts' ?_⟩
      · exact ready'
      · rw [phase]
        change count + (calls i).add + AddPhase.owed _ (if tls.valLong = 0 then _ else _) = _
        split <;> exact add_zero _
  | deleting =>
    rw [phase] at next
    cases next
    rcases counting.inUse.section_outcome linkable within value mine.ttl with ⟨b', inUse', outcome⟩
    rcases counts_deleted mine counting.counts outcome with ⟨ready', counts'⟩
    refine ⟨b', none, counting.moved inUse' ready' counts' ?_⟩
    have zero : stored.getD 0 = 0 := by
      cases stored with
      | none => rfl
      | some count =>
        rcases counting.counts with ⟨ref, bound, _⟩
        have item : a.store.items cfg (hash.slot ref) = some ⟨key, leBytes 8 count.toNat⟩ := by
          rw [counting.inUse.items]
          exact Bindings.items_some.mpr ⟨_, bound⟩
        have read := undisturbed.delete phase ref _ item rfl
        rw [leValue_counter] at read
        exact BitVec.eq_of_toNat_eq read
    rw [phase, zero]
    rfl
  | creating =>
    rw [phase] at next
    cases next
    have missing := undisturbed.create phase
    rw [counting.inUse.items] at missing
    have nowhere := counts_none_iff.mpr missing
    have none_ : stored = none := by
      cases stored with
      | none => rfl
      | some count =>
        rcases counting.counts with ⟨ref, bound, _⟩
        exact absurd rfl (nowhere _ _ bound)
    subst none_
    rcases counting.inUse.section_outcome linkable within value
      (Config.accepts_variable variable_ _ _) with ⟨b', inUse', outcome⟩
    rcases counts_created mine nowhere outcome with ⟨ready', ⟨rfl, rfl⟩ | ⟨rfl, counts'⟩⟩
    · refine ⟨b', none, counting.moved inUse' ready' nowhere ?_⟩
      rw [phase]
      rfl
    · refine ⟨b', some (calls i).add, counting.moved inUse' (ready'.withLong _) counts' ?_⟩
      rw [phase]
      exact (add_zero _).trans (zero_add _).symm

theorem Adders.Counting.steps (variable_ : cfg.isFixedKeyValLen = false) {order : List (Fin n)}
    (counting : a.Counting cfg calls hash key b stored) (undisturbed : a.AllUndisturbed cfg calls hash key order)
    (steps : a.steps cfg calls order = some a') : ∃ b' stored', a'.Counting cfg calls hash key b' stored' := by
  induction order generalizing a b stored with
  | nil =>
    cases steps
    exact ⟨b, stored, counting⟩
  | cons i rest ih =>
    rcases Option.bind_eq_some_iff.mp steps with ⟨a1, step, more⟩
    rcases counting.step variable_ undisturbed.1 step with ⟨b1, stored1, counting1⟩
    exact ih counting1 (undisturbed.2 a1 step) more

theorem Adders.Begins.counting (begins : a.Begins cfg hash key) (inUse : InUse cfg a.store b) :
    a.Counting cfg calls hash key b none := by
  refine ⟨inUse, begins.ready, ?_, ?_⟩
  · apply counts_none_iff.mpr
    rw [← inUse.items]
    exact begins.missing
  · simp only [begins.adding, AddPhase.owed]
    exact zero_add _

/-- A counter which was not there ends as the sum of what was added, if no put meets a counter and no delete
    meets another one than 0. -/
theorem undisturbed_addsUp (cfg : Config) (variable_ : cfg.isFixedKeyValLen = false) (vfs : Nat → Nat) (tls : Tls)
    (sections : List Section) (calls : Fin n → AddCall) (hash : Hash) (key : List UInt8) (a : Adders n)
    (order : List (Fin n)) (attained : Attained cfg vfs tls sections a.store) (begins : a.Begins cfg hash key)
    (undisturbed : a.AllUndisturbed cfg calls hash key order) : AddsUp cfg calls hash key order a := by
  intro a' steps returned process tls' hashed keyed run within read reads
  rcases counterRead_some reads with ⟨code, tls'', value, rfl⟩
  have linkable := Config.linkable_variable variable_
  rcases attained.inUse linkable fun part _ => part.fits_variable variable_ with ⟨b, inUse⟩
  rcases (begins.counting inUse).steps variable_ undisturbed steps with ⟨b', stored, counting⟩
  have balance := counting.balance
  simp only [returned, AddPhase.owed, Finset.sum_const_zero, add_zero] at balance
  rcases counting.inUse.section_outcome linkable within value trivial with ⟨b'', _, outcome⟩
  rcases outcome with ⟨_, same, outcome⟩
  cases same
  have counts := counting.counts
  rw [← hashed, ← keyed] at counts
  rw [← balance]
  exact counts_reads counts outcome

end Runs

def twoAdders : Adders 2 := ⟨State.initial (fun _ => 2^40) (smallTls []), fun _ => smallTls [1], fun _ => .adding⟩

theorem twoAdders_begin : twoAdders.Begins smallConfig 0 [1] where
  adding _ := rfl
  ready _ := ⟨rfl, rfl, rfl⟩
  missing := initial_missing _ _ _ _ _

/-- One adds what the other takes away; the other comes second and deletes the key. -/
theorem oneAfterOther_addsUp : AddsUp smallConfig ![⟨1, 5⟩, ⟨2, -5⟩] 0 [1] [0, 0, 1, 1] twoAdders :=
  undisturbed_addsUp smallConfig rfl (fun _ => 2^40) (smallTls []) [] _ 0 [1] _ _ (initial_attained _ _ _)
    twoAdders_begin (by decide +kernel)

/-- Both find nothing and create the key. -/
theorem twoCreators_not_addUp : ¬ AddsUp smallConfig ![⟨1, 1⟩, ⟨2, 1⟩] 0 [1] [0, 1, 0, 1] twoAdders := by
  intro addsUp
  have outcome : (twoAdders.steps smallConfig ![⟨1, 1⟩, ⟨2, 1⟩] [0, 1, 0, 1]).map (fun a =>
      let run := runProcesses mapped smallConfig [⟨1, smallTls [1], .find uidNone .copyVal⟩] a.store
      (decide (∀ i, a.phase i = .returned), decide (run.peak < 2^32), counterRead run.value)) =
        some (true, true, some 1) := by decide +kernel
  rcases Option.map_eq_some_iff.mp outcome with ⟨a, steps, facts⟩
  simp only [Prod.mk.injEq, decide_eq_true_eq] at facts
  rcases facts with ⟨returned, within, read⟩
  have wrong := addsUp a steps returned 1 (smallTls [1]) rfl rfl within 1 read
  revert wrong
  decide

end SharedHashFile.Store
