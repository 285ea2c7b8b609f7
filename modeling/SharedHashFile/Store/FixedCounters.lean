import SharedHashFile.Store.CounterRuns
import SharedHashFile.Store.ShortValues

namespace SharedHashFile.Store

open ByteMemory Program

section Definitions

variable (cfg : Config) (hash : Hash) (key : List UInt8)

/-- A ref of the key's row leads to a record with the key. -/
def State.HeldAt (s : State Disk) (ref : Fin 16) : Prop :=
  (∃ item ∈ s.items cfg (hash.slot ref), item.key = key) ∧
    ∃ file ∈ s.fileOf (hash.slot ref), (file.tab.row (hash.slot ref).row ref).rnd = hash.rnd

def State.Holds (s : State Disk) : Prop := ∃ ref, s.HeldAt cfg hash key ref

/-- An entry of the key has eight bytes, and they are the number. -/
def State.CounterIs (s : State Disk) (long : Nat) : Prop :=
  ∃ ref, s.HeldAt cfg hash key ref ∧ ∃ item ∈ s.items cfg (hash.slot ref), 8 ≤ item.val.length ∧
    leValue (item.val.take 8) = long

def EntryDeleted (s s' : State Disk) : Prop := ∃ ref, s.HeldAt cfg hash key ref ∧ s'.items cfg (hash.slot ref) = none

/-- A following `shf_add_key_val` returns, having added to the counter, or deleted it at 0. -/
def State.Addable (s : State Disk) (long : Nat) : Prop :=
  ∀ process (mine : Tls) (add : BitVec 64), mine.For hash key →
    let ended := addKeyVal mapped cfg add.toNat (s.takenBy process mine)
    ended.value = .ok retKeyFound ∧ ended.state.shared.tls.valLong = (long + add.toNat) % 2^64 ∧
      if ended.state.shared.tls.valLong = 0 then EntryDeleted cfg hash key s ended.state
      else ended.state.CounterIs cfg hash key ended.state.shared.tls.valLong

/-- A call of `shf_add_key_val` reports an error and changes nothing, or leaves a counter or none at 0, and changes
    no entry of another key. -/
structure AddKept (s s' : State Disk) (code : Nat) : Prop where
  others : ∀ slot item, item.key ≠ key → (s'.items cfg slot = some item ↔ s.items cfg slot = some item)
  counter : code ≠ retKeyFound ∧ s'.items cfg = s.items cfg ∨ code = retKeyFound ∧
    (s'.CounterIs cfg hash key s'.shared.tls.valLong ∧ s'.Addable cfg hash key s'.shared.tls.valLong ∨
      s'.shared.tls.valLong = 0 ∧ EntryDeleted cfg hash key s s')

end Definitions

section Counting

variable {cfg : Config} {s : State Disk} {t : State Tables} {file : File} {ref : Fin 16} {count : Nat}

theorem opened_tab (file : File) : (Tables.opened file).tab.row = file.tab.row ∧
    (Tables.opened file).tab.data = file.tab.data := by
  unfold Tables.opened
  split
  · exact ⟨rfl, rfl⟩
  · exact ⟨rfl, rfl⟩

theorem CountsAt.fileOf (counts : CountsAt cfg t file ref count) (settled : Settled s t) (other : Fin 16) :
    s.fileOf (t.shared.tls.hash.slot other) = some file := (settled.fileOf _).trans counts.there

theorem CountsAt.item (counts : CountsAt cfg t file ref count) (settled : Settled s t) (fixed : cfg.lenLen = 0) :
    s.items cfg (t.shared.tls.hash.slot ref) = some ⟨t.shared.tls.hashKey, read file.tab.data
      ((file.tab.row (t.shared.tls.hash.slot 0).row ref).pos + 1 + cfg.fixedKeyLen) cfg.fixedValLen⟩ := by
  have leads := counts.countable.leads
  unfold Tab.LeadsTo Tab.LooksRight at leads
  rw [(opened_tab file).1, (opened_tab file).2, counts.keyLen] at leads
  rcases leads with ⟨⟨used, _, tab⟩, keyed⟩
  unfold State.items
  rw [counts.fileOf settled, Option.bind_some, Tab.itemAt]
  refine (if_pos ⟨used, tab⟩).trans ?_
  simp only [recordItem, fixed, add_zero]
  rw [← keyed]
  rfl

theorem CountsAt.heldAt (counts : CountsAt cfg t file ref count) (settled : Settled s t) (fixed : cfg.lenLen = 0) :
    s.HeldAt cfg t.shared.tls.hash t.shared.tls.hashKey ref := by
  have rnd := counts.countable.leads.1.2.1
  rw [(opened_tab file).1] at rnd
  exact ⟨⟨_, counts.item settled fixed, rfl⟩, file, counts.fileOf settled ref, rnd⟩

theorem CountsAt.counterIs (counts : CountsAt cfg t file ref count) (settled : Settled s t) (fixed : cfg.lenLen = 0)
    (long : 8 ≤ cfg.fixedValLen) : s.CounterIs cfg t.shared.tls.hash t.shared.tls.hashKey count := by
  refine ⟨ref, counts.heldAt settled fixed, _, counts.item settled fixed, ?_, ?_⟩
  · rw [read_length]
    exact long
  · have count_eq := counts.count
    rw [Tab.countAt, (opened_tab file).1, (opened_tab file).2] at count_eq
    rw [read_take long]
    exact count_eq

theorem CountsAt.addable (counts : CountsAt cfg t file ref count) (settled : Settled s t) (fixed : cfg.lenLen = 0)
    (long : 8 ≤ cfg.fixedValLen) : s.Addable cfg t.shared.tls.hash t.shared.tls.hashKey count := by
  intro process mine add ready
  have settled1 := settled.takenBy process mine
  have same : SameKey t (t.withTls fun _ => mine) := ⟨Frame.withTls t _, ready.hashed, ready.keyed⟩
  rcases (counts.congr same rfl).add_run fixed long ready.ttl add.toNat with ⟨t', run, same', sum, file', after⟩
  rcases settled1.add_ran run with ⟨s', run', settled'⟩
  have same1 := same.trans same'
  have shared := settled'.tables_eq.2
  rw [run']
  dsimp only
  rw [shared]
  refine ⟨rfl, sum, ?_⟩
  split at after
  · rename_i zero
    rw [if_pos zero]
    refine ⟨ref, counts.heldAt settled fixed, ?_⟩
    have there := after.1
    rw [same.home, same.hash] at there
    have path : s'.fileOf (t.shared.tls.hash.slot ref) = some file' := by
      rw [settled'.fileOf, same1.frame.tabs]
      exact there
    have cleared := after.2
    rw [same.hash] at cleared
    unfold State.items
    rw [path, Option.bind_some, Tab.itemAt]
    exact if_neg fun used => used.1 cleared
  · rename_i some_
    rw [if_neg some_, ← same1.hash, ← same1.hashKey]
    exact after.counterIs settled' fixed long

end Counting

section Keeping

variable {cfg : Config} {s s' : State Disk} {b b' : Bindings} {hash : Hash} {key : List UInt8} {place : Slot}
  {binding : Binding} {ref : Fin 16}

theorem InUse.heldAt (inUse : InUse cfg s b) : s.HeldAt cfg hash key ref ↔ b.isAt hash key ref = true := by
  rcases inUse.fileOf (hash.slot ref) with ⟨file, c, free, path, ok, shows_⟩
  have rnd {binding : Binding} (bound : b (hash.slot ref) = some binding) :
      (file.tab.row (hash.slot ref).row ref).rnd = binding.rnd := by
    have live := (ok.live ((shows_.binding rfl).mp bound)).2.1
    rwa [(opened_tab file).1] at live
  rw [isAt_iff]
  unfold State.HeldAt
  rw [inUse.items, path]
  constructor
  · rintro ⟨⟨⟨itemKey, val⟩, there, rfl⟩, _, ⟨⟩, same⟩
    rcases Bindings.items_some.mp there with ⟨rnd', bound⟩
    exact ⟨_, bound, (rnd bound).symm.trans same, rfl⟩
  · rintro ⟨binding, bound, same, rfl⟩
    exact ⟨⟨⟨binding.key, binding.val⟩, Bindings.items_some.mpr ⟨binding.rnd, bound⟩, rfl⟩, file, rfl, (rnd bound).trans same⟩

theorem InUse.counts (inUse : InUse cfg s b) (ready : s.shared.tls.For hash key) (fixed : cfg.lenLen = 0)
    (located : b.locate uidNone hash key = some place) (bound : b place = some binding) (large : 8 ≤ binding.val.length) :
    s.CounterIs cfg hash key (leValue (binding.val.take 8)) ∧ s.Addable cfg hash key (leValue (binding.val.take 8)) := by
  rcases inUse with ⟨t, settled, ok⟩
  rw [settled.tables_eq.2] at ready
  rcases ready with ⟨rfl, rfl, _⟩
  have long : 8 ≤ cfg.fixedValLen := by
    rcases ok.tables place.win ((t.shared.wins place.win).tabs place.tab) (ok.tabs_lt _ _) with ⟨_, c, _, _, tableOk, shows_⟩
    have entry := (@Shows.binding _ _ _ _ _ place.row place.ref place.tab shows_ _ rfl).mp bound
    exact (tableOk.fixed_record fixed entry).2.1 ▸ large
  rcases ok.countsAt fixed long located bound with ⟨file, ref, counts⟩
  exact ⟨counts.counterIs settled fixed long, counts.addable settled fixed long⟩

theorem leValue_long {long : Nat} (small : long < 2^64) : leValue (leBytes 8 long) = long := by
  rw [leValue_leBytes]
  exact Nat.mod_eq_of_lt small

theorem AddOutcome.kept {add : BitVec 64} {code : Nat} (outcome : AddOutcome b hash key add code s'.shared.tls.valLong b')
    (fixed : cfg.lenLen = 0) (ready : s'.shared.tls.For hash key) (inUse : InUse cfg s b) (inUse' : InUse cfg s' b') :
    AddKept cfg hash key s s' code := by
  unfold AddOutcome at outcome
  cases located : b.locate uidNone hash key with
  | none =>
    rw [located] at outcome
    rcases outcome with ⟨rfl, long, ref, free, rfl⟩
    constructor
    · intro slot item other
      rw [inUse.items, inUse'.items]
      refine items_others (fun old there => ?_) (fun value same => by cases same; rfl) other
      rw [free] at there
      cases there
    · have counts := inUse'.counts ready fixed (locate_bound located _) (Function.update_self _ _ _)
        (Nat.le_of_eq (leBytes_length _ _).symm)
      dsimp only at counts
      rw [List.take_of_length_le (Nat.le_of_eq (leBytes_length _ _)), leValue_long add.isLt, ← long] at counts
      exact .inr ⟨rfl, .inl counts⟩
  | some place =>
    rw [located] at outcome
    rcases outcome with ⟨binding, bound, effect⟩
    rcases Bindings.locate_in_triple located with ⟨ref, old, rfl, there, same⟩
    rw [bound] at there
    cases there
    have keyed : ∀ old, b (hash.slot ref) = some old → old.key = key := by
      intro old there
      rw [bound] at there
      cases there
      exact same
    by_cases large : 8 ≤ binding.val.length
    · rw [if_pos large] at effect
      rcases effect with ⟨rfl, long, b'_eq⟩
      by_cases zero : s'.shared.tls.valLong = 0
      · rw [if_pos zero] at b'_eq
        constructor
        · intro slot item other
          rw [inUse.items, inUse'.items, b'_eq]
          exact items_others keyed (fun value same => by cases same) other
        · refine .inr ⟨rfl, .inr ⟨zero, ref, inUse.heldAt.mpr ?_, ?_⟩⟩
          · rw [Bindings.locate, if_pos rfl, Option.map_eq_some_iff] at located
            rcases located with ⟨ref', found, same_slot⟩
            rw [← (Slot.mk.inj same_slot).2.2.2]
            exact List.find?_some found
          · rw [inUse'.items, b'_eq]
            exact Bindings.items_none.mpr (Function.update_self _ _ _)
      · rw [if_neg zero] at b'_eq
        constructor
        · intro slot item other
          rw [inUse.items, inUse'.items, b'_eq]
          exact items_others keyed (fun value eq => by cases eq; exact same) other
        · have small : s'.shared.tls.valLong < 2^64 := long ▸ Nat.mod_lt _ (by decide)
          have again := locate_revalued located bound (leBytes 8 s'.shared.tls.valLong ++ binding.val.drop 8)
          rw [← b'_eq] at again
          have counts := inUse'.counts ready fixed again (by rw [b'_eq]; exact Function.update_self _ _ _) (by
            dsimp only
            rw [List.length_append, leBytes_length]
            exact Nat.le_add_right _ _)
          dsimp only at counts
          rw [List.take_left' (leBytes_length _ _), leValue_long small] at counts
          exact .inr ⟨rfl, .inl counts⟩
    · rw [if_neg large] at effect
      rcases effect with ⟨rfl, rfl⟩
      have items : s'.items cfg = s.items cfg := by rw [inUse.items, inUse'.items]
      exact ⟨fun slot item _ => by rw [items], .inl ⟨by decide, items⟩⟩

end Keeping

section Creating

variable {cfg : Config} {s s' : State Disk} {t t' : State Tables} {b : Bindings} {hash : Hash} {key : List UInt8}

end Creating

end SharedHashFile.Store
