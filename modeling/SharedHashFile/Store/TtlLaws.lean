import SharedHashFile.Store.UidLaws

namespace SharedHashFile.Store

open ByteMemory Program

/-- The four bytes at the value of a record, as the deletion reads them; `none` is past the end of the table. -/
def File.ttlAt (file : File) (cfg : Config) (row : Fin 512) (ref : Fin 16) : Option Nat :=
  let pos := (file.tab.row row ref).pos
  let off := pos + 1 + cfg.lenLen + (recordItem cfg file.tab.data pos).key.length + cfg.lenLen
  if off + 4 ≤ file.size then some (u32At file.tab.data off) else none

section Acts

variable {cfg : Config} {t : State Tables} {b : Bindings} {slot : Slot} {tab : Nat} {record : Found}
  {binding : Binding} {file : File} {c : Contents} {free : List Nat}

theorem opened_ttlAt (file : File) (row : Fin 512) (ref : Fin 16) :
    (Tables.opened file).ttlAt cfg row ref = file.ttlAt cfg row ref := by
  unfold Tables.opened
  split <;> rfl

variable (atRecord : AtRecord cfg t b slot tab record binding file c free)
include atRecord

theorem AtRecord.ttlAt_eq : file.ttlAt cfg slot.row record.ref =
    if record.pos + 1 + cfg.lenLen + binding.key.length + cfg.lenLen + 4 ≤ file.size then
      some (u32At file.tab.data (record.pos + 1 + cfg.lenLen + binding.key.length + cfg.lenLen)) else none := by
  have stored := atRecord.stored
  rw [atRecord.found.pos] at stored
  unfold File.ttlAt
  simp only [stored.record.item, atRecord.found.pos]

theorem AtRecord.ttlAt_long (long : 4 ≤ binding.val.length) :
    file.ttlAt cfg slot.row record.ref = some (leValue (binding.val.take 4)) := by
  have stored := atRecord.stored
  have high := stored.high
  have used := atRecord.tableOk.used_high
  unfold Config.recordLen at high
  rw [atRecord.ttlAt_eq, if_pos (by omega), u32At, ← read_take long, stored.record.valBytes]

theorem deleteKey_ttl (linkable : cfg.Linkable) (ttl : t.shared.tls.ttl ≠ 0) :
    match file.ttlAt cfg slot.row record.ref with
    | none => deleteKey direct cfg slot tab record t = ⟨.error .wild, t, 0⟩
    | some word => ∃ t', deleteKey direct cfg slot tab record t =
        ⟨.ok (if word = t.shared.tls.ttl then retKeyFound else retKeyFound ||| retNotTtl), t', 0⟩ ∧
        StoreOk cfg t' (Function.update b { slot with ref := record.ref }
          (if word = t.shared.tls.ttl then none else some binding)) ∧ t'.shared.tls.ttl = 0 ∧
        (word = t.shared.tls.ttl → t'.shared.tls.val = binding.val ∧ t'.shared.tls.valLen = binding.val.length) := by
  have held := atRecord.held
  have low := atRecord.stored.low
  rw [atRecord.ttlAt_eq]
  generalize off_eq : record.pos + 1 + cfg.lenLen + binding.key.length + cfg.lenLen = off
  have valAddr : t.shared.tls.valAddr = some off := by rw [atRecord.found.valAddr, off_eq]
  by_cases inside : off + 4 ≤ file.size
  · have read := readU32_run held (show dataOffset ≤ off by omega) inside
    rw [if_pos inside]
    by_cases same : u32At file.tab.data off = t.shared.tls.ttl
    · rcases copyVal_run atRecord with ⟨t1, run1, map1, tls1, frame1⟩
      have atRecord1 := atRecord.withTls map1 frame1 (by rw [tls1]) (by rw [tls1])
      rcases deleteFound_run atRecord1 linkable with ⟨t2, run2, acted⟩
      refine ⟨t2, ?_, ?_, ?_, fun _ => ?_⟩
      · refine (bind_ok (getTls_run t)).trans ?_
        rw [if_pos ttl, valAddr, Option.getD_some, bind_ok read, if_neg (not_not.mpr same.symm), bind_ok run1, bind_ok run2,
          if_pos same]
        rfl
      · rw [if_pos same]
        exact acted.ok
      · rw [acted.tls]
      · rw [acted.tls, tls1]
        exact ⟨rfl, rfl⟩
    · rcases modifyTls_step t fun tls => { tls with ttl := 0 } with ⟨t1, run1, map1, tls1, frame1⟩
      refine ⟨t1, ?_, ?_, ?_, fun matches_ => absurd matches_ same⟩
      · refine (bind_ok (getTls_run t)).trans ?_
        rw [if_pos ttl, valAddr, Option.getD_some, bind_ok read, if_pos (Ne.symm same), bind_ok run1, if_neg same]
        rfl
      · rw [if_neg same, atRecord.unchanged]
        exact atRecord.ok.untouched map1 frame1
      · rw [tls1]
  · rw [if_neg inside]
    have wild : readU32 direct (.tab slot.win tab) off t = ⟨.error .wild, t, 0⟩ := by
      have above : 4 = 0 ∨ direct.lowest ≤ off := .inr (show dataOffset ≤ off by omega)
      refine bind_error (bind_error ((bind_ok (viewAt_run held)).trans ((bind_ok (check_true above _ _)).trans ?_)))
      apply check_false
      rintro (none_ | high)
      · exact absurd none_ (by decide)
      · exact inside high
    refine (bind_ok (getTls_run t)).trans ?_
    rw [if_pos ttl, valAddr, Option.getD_some, bind_error wild]

end Acts

section Deletes

variable {cfg : Config} {t : State Tables} {b : Bindings} {uid : Nat}

def DeletedAt (cfg : Config) (t : State Tables) (b : Bindings) (place : Slot) (binding : Binding)
    (run : Outcome Stop (State Tables) Nat) : Option Nat → Prop
  | none => run.value = .error .wild ∧ run.peak = 0
  | some word => ∃ t', run = ⟨.ok (if word = t.shared.tls.ttl then retKeyFound else retKeyFound ||| retNotTtl), t', 0⟩ ∧
      StoreOk cfg t' (Function.update b place (if word = t.shared.tls.ttl then none else some binding)) ∧
      t'.shared.tls.ttl = 0 ∧
      (word = t.shared.tls.ttl → t'.shared.tls.val = binding.val ∧ t'.shared.tls.valLen = binding.val.length)

/-- How a conditional deletion ends. -/
theorem delete_run (linkable : cfg.Linkable) (ok : StoreOk cfg t b) (ttl : t.shared.tls.ttl ≠ 0) :
    match b.locate uid t.shared.tls.hash t.shared.tls.hashKey with
    | none => ∃ t', findKeyInternal direct cfg uid .delete t = ⟨.ok retKeyNone, t', 0⟩ ∧ StoreOk cfg t' b ∧
        t'.shared.tls.ttl = t.shared.tls.ttl
    | some place => ∃ file binding, t.map.table place.win ((t.shared.wins place.win).tabs place.tab) = some file ∧
        b place = some binding ∧
        (4 ≤ binding.val.length → file.ttlAt cfg place.row place.ref = some (leValue (binding.val.take 4))) ∧
        DeletedAt cfg t b place binding (findKeyInternal direct cfg uid .delete t) (file.ttlAt cfg place.row place.ref) := by
  rcases @findKeyInternal_opens _ _ _ uid .delete ok with ⟨t1, keyAddr, valAddr, ptr, file0, reaches, there0, map1⟩
  rcases reaches with ⟨ok1, frame1, tls1, next⟩
  cases located : b.locate uid t.shared.tls.hash t.shared.tls.hashKey with
  | none =>
    rw [located] at next tls1
    rcases modifyTls_step t1 fun tls => { tls with valAddr := none } with ⟨t2, run2, map2, tls2, frame2⟩
    refine ⟨t2, next.trans ?_, ok1.untouched map2 frame2, ?_⟩
    · rw [bind_ok run2]
      rfl
    · rw [tls2, tls1]
      rfl
  | some place =>
    rw [located] at next tls1
    rcases next with ⟨slot, tab, record, binding, file, c, free, rfl, atRecord, run⟩
    have home : (t.shared.wins slot.win).tabs slot.tab = tab := by
      rw [← frame1.tabs]
      exact atRecord.home
    have before : ∃ file', t.map.fileAt (.tab slot.win tab) = some file' ∧
        file.ttlAt cfg slot.row record.ref = file'.ttlAt cfg slot.row record.ref := by
      have there := atRecord.there
      rw [map1] at there
      by_cases here : Ptr.tab slot.win tab = ptr
      · rw [here, State.fileAt_setFile] at there
        cases there
        exact ⟨file0, by rw [here, there0], opened_ttlAt file0 _ _⟩
      · exact ⟨file, (Tables.fileAt_setFile_of_ne _ here).symm.trans there, rfl⟩
    rcases before with ⟨file', there', same⟩
    have ttl1 : t1.shared.tls.ttl = t.shared.tls.ttl := by
      rw [tls1]
      rfl
    have deleted := deleteKey_ttl atRecord linkable (by rw [ttl1]; exact ttl)
    refine ⟨file', binding, by rw [home]; exact there', atRecord.bound, fun long => ?_, ?_⟩
    · rw [← same]
      exact atRecord.ttlAt_long long
    · rw [← same, run]
      rw [ttl1] at deleted
      change DeletedAt cfg t b _ binding (deleteKey direct cfg slot tab record t1) _
      cases word : file.ttlAt cfg slot.row record.ref with
      | none =>
        rw [word] at deleted
        unfold DeletedAt
        rw [deleted]
        exact ⟨rfl, rfl⟩
      | some word_ =>
        rw [word] at deleted
        exact deleted

end Deletes

/-- What `shf_find_key_internal` looks at of a slot: the ref of its table. -/
def State.refAt (s : State Disk) (slot : Slot) : Option Ref := (s.fileOf slot).map fun file => file.tab.row slot.row slot.ref

def State.isAt (s : State Disk) (cfg : Config) (hash : Hash) (key : List UInt8) (ref : Fin 16) : Bool :=
  match s.items cfg (hash.slot ref), s.refAt (hash.slot ref) with
  | some item, some r => r.rnd = hash.rnd ∧ item.key = key
  | _, _ => false

def State.locate (s : State Disk) (cfg : Config) (uid : Nat) (hash : Hash) (key : List UInt8) : Option Slot :=
  if uid = uidNone then ((List.finRange 16).find? (s.isAt cfg hash key)).map hash.slot
  else if (s.items cfg (uidSlot uid)).isSome then some (uidSlot uid)
  else none

/-- The four bytes which a conditional deletion of a slot's entry reads. -/
def State.ttlAt (s : State Disk) (cfg : Config) (slot : Slot) : Option Nat :=
  (s.fileOf slot).bind fun file => file.ttlAt cfg slot.row slot.ref

section Located

variable {cfg : Config} {s : State Disk} {b : Bindings}

theorem InUse.isAt (inUse : InUse cfg s b) (hash : Hash) (key : List UInt8) : s.isAt cfg hash key = b.isAt hash key := by
  funext ref
  rcases inUse.fileOf (hash.slot ref) with ⟨file, c, free, there, tableOk, shows_⟩
  have row : (Tables.opened file).tab.row = file.tab.row := by
    unfold Tables.opened
    split <;> rfl
  unfold State.isAt Bindings.isAt State.refAt
  rw [inUse.items, there, Option.map_some]
  unfold Bindings.items
  cases bound : b (hash.slot ref) with
  | none => rfl
  | some binding =>
    have here : c (hash.slot ref).row (hash.slot ref).ref = some ⟨(hash.slot ref).tab, binding.rnd, binding.key, binding.val⟩ :=
      (shows_.binding rfl).mp bound
    have rnd := (tableOk.live here).2.1
    rw [row] at rnd
    simp only [Option.map_some, rnd]

theorem InUse.locate (inUse : InUse cfg s b) (uid : Nat) (hash : Hash) (key : List UInt8) :
    s.locate cfg uid hash key = b.locate uid hash key := by
  unfold State.locate Bindings.locate
  rw [inUse.isAt, inUse.items]
  unfold Bindings.items
  rw [Option.isSome_map]

end Located

/-- A conditional deletion removes the entry exactly if its value begins with the time to live, leaves its value, tells
    what it did, and asks for no time to live the next time. -/
def DeletesByTtl (cfg : Config) (s : State Disk) (process : Nat) (tls : Tls) (uid : Nat) : Prop :=
  ∃ code tls', (runProcesses mapped cfg [⟨process, tls, .find uid .delete⟩] s).value = .ok [(some code, tls')] ∧
    tls'.ttl = 0 ∧
    match s.locate cfg uid tls.hash tls.hashKey with
    | none => code = retKeyNone ∧
        (runProcesses mapped cfg [⟨process, tls, .find uid .delete⟩] s).state.items cfg = s.items cfg
    | some slot => ∃ item, s.items cfg slot = some item ∧
        if 4 ≤ item.val.length ∧ leValue (item.val.take 4) = tls.ttl then
          code = retKeyFound ∧ tls'.val = item.val ∧ tls'.valLen = item.val.length ∧
            (runProcesses mapped cfg [⟨process, tls, .find uid .delete⟩] s).state.items cfg =
              Function.update (s.items cfg) slot none
        else code = retKeyFound ||| retNotTtl ∧
          (runProcesses mapped cfg [⟨process, tls, .find uid .delete⟩] s).state.items cfg = s.items cfg

/-- There is an entry, and its value has four bytes, or the four bytes at it are in the table and not the time to live. -/
def TtlDecides (cfg : Config) (s : State Disk) (tls : Tls) (uid : Nat) : Prop :=
  ∃ slot item, s.locate cfg uid tls.hash tls.hashKey = some slot ∧ s.items cfg slot = some item ∧
    (4 ≤ item.val.length ∨ ∃ word, s.ttlAt cfg slot = some word ∧ word ≠ tls.ttl)

section Sections

variable {cfg : Config} {s : State Disk} {t : State Tables} {b : Bindings} {part : Section}

theorem enter_run : runSections direct cfg (fun _ T => T) [part] t = (do
    let result ← part.work.run direct cfg
    let tls ← getTls
    pure [(result, tls)] : Operation Tables (List (Option Nat × Tls))) (t.withTls fun _ => part.tls) := by
  rw [runSections_entered]
  rfl

/-- A section whose work is known on the tables themselves ends alike on the files. -/
theorem section_run {b' : Bindings} {result : Option Nat} {t' : State Tables} (settled : Settled s t)
    (run : part.work.run direct cfg (t.withTls fun _ => part.tls) = ⟨.ok result, t', 0⟩) (ok : StoreOk cfg t' b') :
    ∃ s', runProcesses mapped cfg [part] s = ⟨.ok [(result, t'.shared.tls)], s', 0⟩ ∧ InUse cfg s' b' := by
  have whole : runSections direct cfg (fun _ T => T) [part] t = ⟨.ok [(result, t'.shared.tls)], t', 0⟩ := by
    rw [enter_run, bind_ok run, bind_ok (getTls_run t')]
    rfl
  rcases (runSections_simulates guarded_faithful settled).run whole (by decide) with ⟨s', run', settled'⟩
  exact ⟨s', (runSections_follows mapped_lowest Disk.switch [part]).run run', t', settled', ok⟩

theorem section_stops {e : Stop} (other : e ≠ .below) (settled : Settled s t)
    (value : (part.work.run direct cfg (t.withTls fun _ => part.tls)).value = .error e)
    (peak : (part.work.run direct cfg (t.withTls fun _ => part.tls)).peak = 0) :
    (runProcesses mapped cfg [part] s).value = .error e := by
  have below : (runSections direct cfg (fun _ T => T) [part] t).peak < sizeLimit := by
    rw [enter_run, bind_peak_stopped value, peak]
    exact Nat.two_pow_pos 32
  have stopped : (runSections direct cfg (fun _ T => T) [part] t).value = .error e := by
    rw [enter_run]
    exact bind_stopped value
  have simulates := @runSections_simulates _ cfg _ _ guarded_faithful [part] settled
  have guarded := (runSections_follows mapped_lowest Disk.switch [part]).same_simulated simulates below fun never =>
    other (Except.error.inj (stopped.symm.trans never))
  rw [runProcesses, guarded]
  exact (simulates (.inr below)).2.1.trans stopped

end Sections

theorem retKeyFound_notTtl : retKeyFound ≠ retKeyFound ||| retNotTtl := by decide

section Conditional

variable {cfg : Config} {s : State Disk} {b : Bindings}

theorem InUse.deletes_iff_decides (inUse : InUse cfg s b) (linkable : cfg.Linkable) {tls : Tls} (ttl : tls.ttl ≠ 0)
    (process uid : Nat) : DeletesByTtl cfg s process tls uid ↔ TtlDecides cfg s tls uid := by
  rcases inUse with ⟨t, settled, ok⟩
  have inUse : InUse cfg s b := ⟨t, settled, ok⟩
  have ok1 := ok.withTls fun _ => tls
  obtain ⟨part, part_eq⟩ : ∃ part : Section, part = ⟨process, tls, .find uid .delete⟩ := ⟨_, rfl⟩
  have work : part.work.run direct cfg (t.withTls fun _ => part.tls) = (do
      let result ← findKeyInternal direct cfg uid .delete
      pure (some result) : Operation Tables (Option Nat)) (t.withTls fun _ => tls) := by
    rw [part_eq]
    rfl
  have deleted := @delete_run cfg (t.withTls fun _ => tls) b uid linkable ok1 ttl
  have locate : b.locate uid (t.withTls fun _ => tls).shared.tls.hash (t.withTls fun _ => tls).shared.tls.hashKey =
      b.locate uid tls.hash tls.hashKey := rfl
  rw [locate] at deleted
  unfold DeletesByTtl TtlDecides
  rw [← part_eq, inUse.locate, inUse.items]
  cases located : b.locate uid tls.hash tls.hashKey with
  | none =>
    rw [located] at deleted
    rcases deleted with ⟨t', run, ok', ttl'⟩
    have run' : part.work.run direct cfg (t.withTls fun _ => part.tls) = ⟨.ok (some retKeyNone), t', 0⟩ := by
      rw [work, bind_ok run]
      rfl
    rcases section_run settled run' ok' with ⟨s', done, _⟩
    constructor
    · rintro ⟨code, tls', value, zero, _⟩
      rw [done] at value
      cases value
      rw [ttl'] at zero
      exact absurd zero ttl
    · rintro ⟨_, _, none_, _⟩
      cases none_
  | some place =>
    rw [located] at deleted
    rcases deleted with ⟨file, binding, there, bound, long, deleted⟩
    have item : b.items place = some ⟨binding.key, binding.val⟩ := by
      unfold Bindings.items
      rw [bound]
      rfl
    have fileOf : s.fileOf place = some file := by
      rcases settled with ⟨L, tracks, _⟩
      unfold State.fileOf
      rw [tracks.shared]
      change s.map.tables.table place.win ((t.shared.wins place.win).tabs place.tab) = some file
      rw [tracks.tables]
      exact there
    have word_eq : s.ttlAt cfg place = file.ttlAt cfg place.row place.ref := by
      unfold State.ttlAt
      rw [fileOf]
      rfl
    cases word : file.ttlAt cfg place.row place.ref with
    | none =>
      rw [word] at deleted
      rcases deleted with ⟨value, peak⟩
      have stops : (runProcesses mapped cfg [part] s).value = .error .wild := by
        apply section_stops (by decide) settled
        · rw [work]
          exact bind_stopped value
        · rw [work, bind_peak_stopped value, peak]
      constructor
      · rintro ⟨code, tls', ended, _⟩
        rw [stops] at ended
        cases ended
      · rintro ⟨slot, item', same, there', either⟩
        cases same
        rw [item] at there'
        cases there'
        rcases either with four | ⟨word', read_, _⟩
        · rw [word] at long
          cases long four
        · rw [word_eq, word] at read_
          cases read_
    | some word' =>
      rw [word] at deleted
      rcases deleted with ⟨t', run, ok', zero, copied⟩
      have run' : part.work.run direct cfg (t.withTls fun _ => part.tls) =
          ⟨.ok (some (if word' = tls.ttl then retKeyFound else retKeyFound ||| retNotTtl)), t', 0⟩ := by
        rw [work, bind_ok run]
        rfl
      rcases section_run settled run' ok' with ⟨s', done, inUse'⟩
      have after := inUse'.items
      rw [Bindings.items_update] at after
      have unchanged : Function.update b.items place (some ⟨binding.key, binding.val⟩) = b.items := by
        rw [← item, Function.update_eq_self]
      rw [done]
      change s'.items cfg = Function.update b.items place ((if word' = tls.ttl then none else some binding).map fun bound =>
        ⟨bound.key, bound.val⟩) at after
      have tells : (∃ code tls', (Except.ok [(some (if word' = tls.ttl then retKeyFound else retKeyFound ||| retNotTtl),
          t'.shared.tls)] : Except Stop (List (Option Nat × Tls))) = .ok [(some code, tls')] ∧ tls'.ttl = 0 ∧
          ∃ item, b.items place = some item ∧
            if 4 ≤ item.val.length ∧ leValue (item.val.take 4) = tls.ttl then
              code = retKeyFound ∧ tls'.val = item.val ∧ tls'.valLen = item.val.length ∧
                s'.items cfg = Function.update b.items place none
            else code = retKeyFound ||| retNotTtl ∧ s'.items cfg = b.items) ↔
          (4 ≤ binding.val.length ∧ leValue (binding.val.take 4) = tls.ttl ↔ word' = tls.ttl) := by
        constructor
        · rintro ⟨code, tls', same, _, item', item_eq, outcome⟩
          cases same
          rw [item] at item_eq
          cases item_eq
          split at outcome
          · rename_i removes
            refine iff_of_true removes ?_
            by_contra differ
            rw [if_neg differ] at outcome
            exact retKeyFound_notTtl outcome.1.symm
          · rename_i stays
            refine iff_of_false stays fun same => ?_
            rw [if_pos same] at outcome
            exact retKeyFound_notTtl outcome.1
        · intro removes
          refine ⟨_, _, rfl, zero, _, item, ?_⟩
          by_cases same : word' = tls.ttl
          · rw [if_pos (removes.mpr same), if_pos same]
            rw [if_pos same] at after
            exact ⟨rfl, (copied same).1, (copied same).2, after⟩
          · rw [if_neg (mt removes.mp same), if_neg same]
            rw [if_neg same] at after
            exact ⟨rfl, after.trans unchanged⟩
      refine tells.trans ?_
      constructor
      · intro removes
        refine ⟨place, _, rfl, item, ?_⟩
        by_cases four : 4 ≤ binding.val.length
        · exact .inl four
        · exact .inr ⟨word', by rw [word_eq, word], fun same => four (removes.mpr same).1⟩
      · rintro ⟨slot, item', same, there', either⟩
        cases same
        rw [item] at there'
        cases there'
        have read_ (four : 4 ≤ binding.val.length) : word' = leValue (binding.val.take 4) := by
          have long := long four
          rw [word] at long
          exact Option.some.inj long
        rcases either with four | ⟨word2, word2_eq, differ⟩
        · rw [read_ four]
          exact and_iff_right four
        · rw [word_eq, word] at word2_eq
          cases word2_eq
          exact iff_of_false (fun both => differ ((read_ both.1).trans both.2)) differ

/-- A conditional deletion does what it is for exactly where there is an entry, and no value shorter than the time to live
    is taken for it. -/
theorem deletesByTtl_iff (cfg : Config) (variable_ : cfg.isFixedKeyValLen = false) (vfs : Nat → Nat) (first : Tls)
    (sections : List Section) (s : State Disk) (attained : Attained cfg vfs first sections s) (process : Nat) (tls : Tls)
    (ttl : tls.ttl ≠ 0) (uid : Nat) : DeletesByTtl cfg s process tls uid ↔ TtlDecides cfg s tls uid := by
  have linkable : cfg.Linkable := Config.linkable_variable variable_
  rcases attained.inUse linkable fun part _ => part.fits_variable variable_ with ⟨b, inUse⟩
  exact inUse.deletes_iff_decides linkable ttl process uid

end Conditional

def ttlTls (key : List UInt8) : Tls := { smallTls key with ttl := 5 }

def ttlStored : State Disk := (runProcesses mapped smallConfig [⟨0, smallTls [1], .put (.copy [5, 0, 0, 0, 9])⟩]
  (State.initial (fun _ => 2^40) (smallTls []))).state

theorem ttlPut_run : Attained smallConfig (fun _ => 2^40) (smallTls []) [⟨0, smallTls [1], .put (.copy [5, 0, 0, 0, 9])⟩] ttlStored ∧
    ttlStored.locate smallConfig uidNone (ttlTls [1]).hash (ttlTls [1]).hashKey = some ⟨0, 0, 0, 0⟩ ∧
    ttlStored.items smallConfig ⟨0, 0, 0, 0⟩ = some ⟨[1], [5, 0, 0, 0, 9]⟩ :=
  ⟨⟨by decide +kernel, by decide +kernel, rfl⟩, by decide +kernel, by decide +kernel⟩

theorem ttlStored_deletes : DeletesByTtl smallConfig ttlStored 1 (ttlTls [1]) uidNone := by
  rcases ttlPut_run with ⟨attained, located, item⟩
  refine (deletesByTtl_iff smallConfig rfl _ _ _ ttlStored attained 1 (ttlTls [1]) (by decide) uidNone).mpr ?_
  exact ⟨_, _, located, item, .inl (by decide)⟩

/-- Where there is no entry the next deletion is conditional too. -/
theorem newStore_not_deletes : ¬ ∀ (cfg : Config) (vfs : Nat → Nat) (first : Tls) (sections : List Section) (s : State Disk)
    (process : Nat) (tls : Tls) (uid : Nat), cfg.isFixedKeyValLen = false → Attained cfg vfs first sections s →
    tls.ttl ≠ 0 → DeletesByTtl cfg s process tls uid := by
  intro deletes
  have attained := initial_attained smallConfig (fun _ => 2^40) (smallTls [])
  have always := deletes smallConfig _ _ _ _ 0 (ttlTls [1]) uidNone rfl attained (by decide)
  have inUse := initial_inUse smallConfig (fun _ => 2^40) (smallTls [])
  have decides := (inUse.deletes_iff_decides (Config.linkable_variable rfl) (by decide) 0 uidNone).mp always
  rcases decides with ⟨slot, item, _, there, _⟩
  rw [inUse.items] at there
  cases there

end SharedHashFile.Store
