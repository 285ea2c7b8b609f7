import SharedHashFile.Store.FixedSearch

namespace SharedHashFile.Store

open ByteMemory Program

/-- A counter which the lookup of its key finds, whatever becomes of the bytes behind it. -/
structure Countable (cfg : Config) (file : File) (slot : Slot) (rnd : Nat) (key : List UInt8) (ref : Fin 16) : Prop where
  searchable : Searchable cfg file slot.row
  checks : ∀ other, file.tab.LooksRight slot rnd other → cfg.Checks file.tab (file.tab.row slot.row other).pos
  first : (List.finRange 16).find? (file.tab.LeadsTo slot rnd key) = some ref
  within : (file.tab.row slot.row ref).pos + 1 + cfg.fixedKeyLen + 8 ≤ file.size
  apart : ∀ other, file.tab.LooksRight slot rnd other → Apart ((file.tab.row slot.row other).pos + 1) cfg.fixedKeyLen
    ((file.tab.row slot.row ref).pos + 1 + cfg.fixedKeyLen) 8

def Tab.countAt (cfg : Config) (tab : Tab) (row : Fin 512) (ref : Fin 16) : Nat :=
  leValue (read tab.data ((tab.row row ref).pos + 1 + cfg.fixedKeyLen) 8)

section Countable

variable {cfg : Config} {t : State Tables} {file : File} {slot : Slot} {rnd : Nat} {key : List UInt8} {ref : Fin 16}
  {outcome : Except Stop (Option Found)} {tls : Tls}

theorem Countable.leads (countable : Countable cfg file slot rnd key ref) : file.tab.LeadsTo slot rnd key ref := by
  have found := List.find?_some countable.first
  exact of_decide_eq_true found

theorem Countable.low (countable : Countable cfg file slot rnd key ref) : dataOffset ≤ (file.tab.row slot.row ref).pos :=
  (countable.searchable.inside ref countable.leads.1.1).1

theorem Countable.searched (countable : Countable cfg file slot rnd key ref)
    (ends : SearchEnds cfg file.tab slot rnd key (List.finRange 16) tls outcome) :
    outcome = .ok (some ⟨ref, (file.tab.row slot.row ref).pos, cfg.fixedKeyLen, cfg.fixedValLen⟩) ∧
      tls.valAddr = some ((file.tab.row slot.row ref).pos + 1 + cfg.fixedKeyLen) := by
  have leads := countable.leads
  have first := countable.first
  have checks := countable.checks
  have member := List.mem_finRange ref
  generalize List.finRange 16 = refs at ends first member
  match outcome, ends with
  | .error e, ⟨_, other, _, right, fails⟩ => exact absurd (checks other right) fails
  | .ok none, none_ => exact absurd leads (none_ ref member)
  | .ok (some record), ⟨found, same, _, addr⟩ =>
    rw [first] at found
    cases found
    rw [same] at addr ⊢
    exact ⟨rfl, addr⟩

theorem Countable.counting {bytes : List UInt8} (countable : Countable cfg file slot rnd key ref)
    (keyLen : key.length = cfg.fixedKeyLen) (eight : bytes.length = 8) : Countable cfg (file.withData
      (write file.tab.data ((file.tab.row slot.row ref).pos + 1 + cfg.fixedKeyLen) bytes)) slot rnd key ref := by
  refine ⟨⟨countable.searchable.size, countable.searchable.header, countable.searchable.inside⟩, countable.checks, ?_,
    countable.within, countable.apart⟩
  refine (congrArg (fun leads => (List.finRange 16).find? leads) (funext fun other => ?_)).trans countable.first
  refine decide_eq_decide.mpr (and_congr_right fun right => ?_)
  have apart := countable.apart other right
  unfold Apart at apart
  have kept : read (write file.tab.data ((file.tab.row slot.row ref).pos + 1 + cfg.fixedKeyLen) bytes)
      ((file.tab.row slot.row other).pos + 1) key.length = read file.tab.data ((file.tab.row slot.row other).pos + 1) key.length :=
    read_write_apart (by omega)
  exact Eq.congr_left kept

theorem atomAdd_fixed {win : Fin 256} {tab pos valLen : Nat} (held : Held t (.tab win tab) file) (long : 8 ≤ valLen)
    (addr : t.shared.tls.valAddr = some pos) (low : dataOffset ≤ pos) (high : pos + 8 ≤ file.size) : ∃ t',
    atomAdd direct win tab valLen t = ⟨.ok retKeyFound, t', 0⟩ ∧
      t'.map = (t.setFile (.tab win tab) (file.withData (write file.tab.data pos (leBytes 8 t'.shared.tls.valLong)))).map ∧
      t'.shared.wins = t.shared.wins ∧ t'.shared.tls = { t.shared.tls with
        valLong := (leValue (read file.tab.data pos 8) + t.shared.tls.valLong) % 2^64 } := by
  have read_ := readMem_run held (.inr ⟨low, high⟩)
  have wrote := @writeMem_run _ _ _ pos (leBytes 8 ((leValue (read file.tab.data pos 8) + t.shared.tls.valLong) % 2^64)) held
    (.inr ⟨low, by rw [leBytes_length]; exact high⟩)
  rw [atomAdd, if_pos long, bind_ok (getTls_run t), addr, Option.getD_some, bind_ok read_]
  refine ⟨_, (bind_ok wrote).trans (bind_ok (modifyTls_run _ _)), rfl, rfl, rfl⟩

theorem clearedFile_pos {row : Fin 512} {refsUsed dataFree dataUsed : Nat} (base : File) :
    ((clearedFile row ref refsUsed dataFree dataUsed base).tab.row row ref).pos = 0 := by
  change ((base.tab.setRef row ref _).row row ref).pos = 0
  rw [Tab.setRef_row, if_pos ⟨rfl, rfl⟩]

theorem mark_fixed {ptr : Ptr} {row : Fin 512} {keyLen valLen : Nat} (fixed : cfg.lenLen = 0) (held : Held t ptr file)
    (low : dataOffset ≤ (file.tab.row row ref).pos) (high : (file.tab.row row ref).pos + 9 ≤ file.size)
    (small : file.size < 2^32) : ∃ file', tabRefMarkAsDeleted direct cfg ptr row ref keyLen valLen t =
      ⟨.ok (), t.setFile ptr file', 0⟩ ∧ (file'.tab.row row ref).pos = 0 := by
  generalize pos_eq : (file.tab.row row ref).pos = pos at low high
  have typed := @writeU08_run _ _ _ pos dataTypeDeleted held low (by omega)
  have whole : (pos + 1) % 2^32 + 4 = pos + 5 := by omega
  have linked := @writeU32_run _ _ _ (pos + 5) file.tab.tabDataFreePos
    (held.setData (write file.tab.data pos [dataTypeDeleted])) (by omega) (by rw [File.withData_size]; omega)
  rw [State.setFile_setFile] at linked
  have listed := (bind_ok (f := fun _ => modifyTab direct ptr fun t => { t with tabDataFreePos := pos })
    linked).trans (relist_run held.size)
  rw [tabRefMarkAsDeleted, bind_ok (tabAt_run held), pos_eq, bind_ok typed, bind_ok (when_false (not_not.mpr fixed) _ _), whole]
  by_cases many : cfg.lenLen = 0 ∧ 4 ≤ (keyLen + valLen) % 2^32
  · rw [when_true many, bind_ok listed]
    exact ⟨_, clear_run held.size, clearedFile_pos _⟩
  · rw [bind_ok (when_false many _ _)]
    exact ⟨_, clear_run held.size, clearedFile_pos _⟩

end Countable

section Calls

variable {cfg : Config} {t : State Tables} {file : File} {ref : Fin 16} {count : Nat}

/-- The counter of the running thread's key, in the table where it is looked up. -/
structure CountsAt (cfg : Config) (t : State Tables) (file : File) (ref : Fin 16) (count : Nat) : Prop where
  there : t.map.fileAt (.tab (t.shared.tls.hash.slot 0).win t.home) = some file
  keyLen : t.shared.tls.hashKey.length = cfg.fixedKeyLen
  countable : Countable cfg (Tables.opened file) (t.shared.tls.hash.slot 0) t.shared.tls.hash.rnd t.shared.tls.hashKey ref
  count : (Tables.opened file).tab.countAt cfg (t.shared.tls.hash.slot 0).row ref = count

/-- What the calls of a thread leave of its key and of the redirections. -/
structure SameKey (t t' : State Tables) : Prop where
  frame : Frame (fun _ => True) t t'
  hash : t'.shared.tls.hash = t.shared.tls.hash
  hashKey : t'.shared.tls.hashKey = t.shared.tls.hashKey

theorem SameKey.trans {t' t'' : State Tables} (first : SameKey t t') (second : SameKey t' t'') : SameKey t t'' :=
  ⟨first.frame.trans second.frame, second.hash.trans first.hash, second.hashKey.trans first.hashKey⟩

theorem SameKey.home {t' : State Tables} (same : SameKey t t') : t'.home = t.home := by
  unfold State.home
  rw [same.hash, same.frame.tabs]

theorem CountsAt.congr {t' : State Tables} (counts : CountsAt cfg t file ref count) (same : SameKey t t')
    (map : t'.map = t.map) : CountsAt cfg t' file ref count := by
  rcases counts with ⟨there, keyLen, countable, count_eq⟩
  refine ⟨?_, ?_, ?_, ?_⟩
  · rw [same.home, same.hash, map]
    exact there
  · rw [same.hashKey, keyLen]
  · rw [same.hash, same.hashKey]
    exact countable
  · rw [same.hash]
    exact count_eq

theorem CountsAt.find_run (counts : CountsAt cfg t file ref count) (fixed : cfg.lenLen = 0) : ∃ t',
    t'.map = (t.setFile (.tab (t.shared.tls.hash.slot 0).win t.home) (Tables.opened file)).map ∧ AfterSearch t t' ∧
      t'.shared.tls.valAddr = some (((Tables.opened file).tab.row (t.shared.tls.hash.slot 0).row ref).pos + 1 + cfg.fixedKeyLen) ∧
      ∀ what, findKeyInternal direct cfg uidNone what t = actOn direct cfg (t.shared.tls.hash.slot 0) t.home
        ⟨ref, ((Tables.opened file).tab.row (t.shared.tls.hash.slot 0).row ref).pos, cfg.fixedKeyLen, cfg.fixedValLen⟩ what t' := by
  rcases findKeyInternal_fixed fixed counts.keyLen counts.there counts.countable.searchable with ⟨outcome, t', map, after, ends, run⟩
  rcases counts.countable.searched ends with ⟨rfl, addr⟩
  exact ⟨t', map, after, addr, run⟩

theorem CountsAt.atomAdd_run (counts : CountsAt cfg t file ref count) (fixed : cfg.lenLen = 0) (long : 8 ≤ cfg.fixedValLen) :
    ∃ t' file', findKeyInternal direct cfg uidNone .atomAdd t = ⟨.ok retKeyFound, t', 0⟩ ∧ SameKey t t' ∧
      t'.shared.tls.ttl = t.shared.tls.ttl ∧ CountsAt cfg t' file' ref t'.shared.tls.valLong ∧
        t'.shared.tls.valLong = (count + t.shared.tls.valLong) % 2^64 := by
  rcases counts.find_run fixed with ⟨t1, map1, after1, addr, run⟩
  have low := counts.countable.low
  have within := counts.countable.within
  have held : Held t1 (.tab (t.shared.tls.hash.slot 0).win t.home) (Tables.opened file) :=
    counts.countable.searchable.held (by rw [map1]; exact State.fileAt_setFile _ _ _)
  rcases atomAdd_fixed held long addr (by omega) within with ⟨t2, added, map2, wins2, tls2⟩
  have same : SameKey t t2 := by
    refine ⟨after1.frame.trans ⟨fun _ away => absurd trivial away, fun _ => ?_, fun _ => ?_, fun _ => ?_⟩, ?_, ?_⟩
    · rw [wins2]
    · rw [wins2]
    · rw [wins2]
    · rw [tls2, ← after1.hash]
    · rw [tls2, ← after1.hashKey]
  have counting := @Countable.counting _ _ _ _ _ _ (leBytes 8 t2.shared.tls.valLong) counts.countable counts.keyLen (leBytes_length _ _)
  have small : t2.shared.tls.valLong < 256^8 := by
    rw [tls2]
    exact Nat.mod_lt _ (by decide)
  have counted : ((Tables.opened file).withData (write (Tables.opened file).tab.data (((Tables.opened file).tab.row
      (t.shared.tls.hash.slot 0).row ref).pos + 1 + cfg.fixedKeyLen) (leBytes 8 t2.shared.tls.valLong))).tab.countAt cfg
      (t.shared.tls.hash.slot 0).row ref = t2.shared.tls.valLong :=
    (congrArg leValue (read_write_of_length _ _ (leBytes_length _ _))).trans
      ((leValue_leBytes _ _).trans (Nat.mod_eq_of_lt small))
  generalize (Tables.opened file).withData _ = file' at counting map2 counted
  have there : t2.map.fileAt (.tab (t.shared.tls.hash.slot 0).win t.home) = some file' := by
    rw [map2]
    exact State.fileAt_setFile _ _ _
  refine ⟨t2, file', (run .atomAdd).trans added, same, ?_, ⟨?_, ?_, ?_, ?_⟩, ?_⟩
  · rw [tls2, ← after1.ttl]
  · rw [same.home, same.hash]
    exact there
  · rw [same.hashKey, counts.keyLen]
  · rw [same.hash, same.hashKey, counting.searchable.opened]
    exact counting
  · rw [same.hash, counting.searchable.opened]
    exact counted
  · rw [tls2, after1.valLong, ← counts.count]
    rfl

theorem CountsAt.delete_run (counts : CountsAt cfg t file ref count) (fixed : cfg.lenLen = 0) (ttl : t.shared.tls.ttl = 0) :
    ∃ t' file', findKeyInternal direct cfg uidNone .delete t = ⟨.ok retKeyFound, t', 0⟩ ∧ SameKey t t' ∧
      t'.shared.tls.valLong = t.shared.tls.valLong ∧
      t'.map.fileAt (.tab (t.shared.tls.hash.slot 0).win t.home) = some file' ∧
      (file'.tab.row (t.shared.tls.hash.slot 0).row ref).pos = 0 := by
  rcases counts.find_run fixed with ⟨t1, map1, after1, _, run⟩
  have held : Held t1 (.tab (t.shared.tls.hash.slot 0).win t.home) (Tables.opened file) :=
    counts.countable.searchable.held (by rw [map1]; exact State.fileAt_setFile _ _ _)
  have within := counts.countable.within
  rcases mark_fixed fixed held counts.countable.low (by omega) counts.countable.searchable.size.high with ⟨file', marked, cleared⟩
  generalize marked_eq : t1.setFile (.tab (t.shared.tls.hash.slot 0).win t.home) file' = t2 at marked
  rcases modifyTls_step t2 fun tls => { tls with uid := uidNone, ttl := 0 } with ⟨t3, run3, map3, tls3, frame3⟩
  have tls2 : t2.shared.tls = t1.shared.tls := by rw [← marked_eq]; rfl
  have frame2 : Frame (fun _ => True) t1 t2 := by
    rw [← marked_eq]
    exact (Frame.setFile t1 _ _).mono fun _ _ => trivial
  refine ⟨t3, file', (run .delete).trans ?_, ⟨?_, ?_, ?_⟩, ?_, ?_, cleared⟩
  · refine (bind_ok (getTls_run t1)).trans ?_
    rw [after1.ttl, if_neg (not_not.mpr ttl)]
    exact bind_ok ((bind_ok marked).trans run3)
  · exact after1.frame.trans (frame2.trans (frame3.mono fun _ => False.elim))
  · rw [tls3, tls2, ← after1.hash]
  · rw [tls3, tls2, ← after1.hashKey]
  · rw [tls3, tls2, ← after1.valLong]
  · rw [map3, ← marked_eq]
    exact State.fileAt_setFile _ _ _

theorem CountsAt.add_run (counts : CountsAt cfg t file ref count) (fixed : cfg.lenLen = 0) (long : 8 ≤ cfg.fixedValLen)
    (ttl : t.shared.tls.ttl = 0) (add : Nat) : ∃ t', addKeyVal direct cfg add t = ⟨.ok retKeyFound, t', 0⟩ ∧
      SameKey t t' ∧ t'.shared.tls.valLong = (count + add) % 2^64 ∧ ∃ file',
        if t'.shared.tls.valLong = 0 then t'.map.fileAt (.tab (t.shared.tls.hash.slot 0).win t.home) = some file' ∧
          (file'.tab.row (t.shared.tls.hash.slot 0).row ref).pos = 0
        else CountsAt cfg t' file' ref t'.shared.tls.valLong := by
  rcases modifyTls_step t fun tls => { tls with valLong := add } with ⟨t1, run1, map1, tls1, frame1⟩
  have same1 : SameKey t t1 := by refine ⟨frame1.mono fun _ => False.elim, ?_, ?_⟩ <;> rw [tls1]
  have counts1 := counts.congr same1 map1
  rcases counts1.atomAdd_run fixed long with ⟨t2, file2, run2, same2, ttl2, counts2, long2⟩
  have long1 : t1.shared.tls.valLong = add := by rw [tls1]
  rw [long1] at long2
  have atom : addKeyValAtom direct cfg add t = ⟨.ok retKeyFound, t2, 0⟩ := (bind_ok run1).trans run2
  have begin : addKeyVal direct cfg add t = (do
      let tls ← getTls
      when (tls.valLong = 0) do
        let _ ← delKeyVal direct cfg
        pure ()
      pure retKeyFound : Operation Tables Nat) t2 := (bind_ok atom).trans (by rw [if_pos rfl])
  by_cases zero : t2.shared.tls.valLong = 0
  · rcases counts2.delete_run fixed (by rw [ttl2, tls1]; exact ttl) with ⟨t3, file3, run3, same3, long3, there3, cleared⟩
    have deleted : (delKeyVal direct cfg >>= fun _ => pure () : Operation Tables Unit) t2 = ⟨.ok (), t3, 0⟩ := bind_ok run3
    refine ⟨t3, begin.trans ((bind_ok (getTls_run t2)).trans ?_), (same1.trans same2).trans same3, long3.trans long2,
      file3, ?_⟩
    · rw [when_true zero]
      exact bind_ok deleted
    · rw [if_pos (long3.trans zero)]
      rw [same2.home, same2.hash, same1.home, same1.hash] at there3
      rw [same2.hash, same1.hash] at cleared
      exact ⟨there3, cleared⟩
  · exact ⟨t2, begin.trans ((bind_ok (getTls_run t2)).trans (bind_ok (when_false zero _ _))), same1.trans same2, long2,
      file2, by rw [if_neg zero]; exact counts2⟩

end Calls

section Tables

variable {cfg : Config} {file : File} {c : Contents} {free : List Nat} {b : Bindings} {tabs : Fin 2048 → Nat} {tab : Nat}
  {hash : Hash} {key : List UInt8} {ref : Fin 16} {row : Fin 512} {entry : Entry}

theorem TableOk.fixed_record (ok : TableOk cfg file c free) (fixed : cfg.lenLen = 0) (there : c row ref = some entry) :
    entry.key.length = cfg.fixedKeyLen ∧ entry.val.length = cfg.fixedValLen ∧ entry.len cfg = cfg.fixedLen ∧
      cfg.fixedLen = 1 + cfg.fixedKeyLen + cfg.fixedValLen ∧ dataOffset ≤ (file.tab.row row ref).pos ∧
      (file.tab.row row ref).pos + cfg.fixedLen ≤ file.tab.tabUsed := by
  have stored := (ok.live there).2.2
  have len := stored.record.fits.recordLen fixed
  have high := stored.high
  rw [len] at high
  refine ⟨(stored.record.fits fixed).1, (stored.record.fits fixed).2, len, ?_, stored.low, high⟩
  unfold Config.fixedLen Config.recordLen
  rw [fixed]
  omega

theorem TableOk.searchable (ok : TableOk cfg file c free) (fixed : cfg.lenLen = 0) (row : Fin 512) : Searchable cfg file row := by
  refine ⟨ok.size, ok.header, fun ref used => ?_⟩
  rcases Option.ne_none_iff_exists'.mp (mt ok.pos_zero_iff.mpr used) with ⟨entry, there⟩
  rcases ok.fixed_record fixed there with ⟨_, _, _, len, low, high⟩
  have inside := ok.used_high
  exact ⟨low, by omega⟩

section Row

variable (ok : TableOk cfg file c free) (shows_ : Shows c (hash.slot 0).win tab tabs b)
  (home : tabs (hash.slot 0).tab = tab) (fixed : cfg.lenLen = 0) (keyLen : key.length = cfg.fixedKeyLen)
include ok shows_ home fixed keyLen

theorem leadsTo_iff : file.tab.LeadsTo (hash.slot 0) hash.rnd key ref ↔ b.isAt hash key ref = true := by
  rw [isAt_iff, Tab.LeadsTo, Tab.LooksRight, looksRight_iff ok shows_ home]
  constructor
  · rintro ⟨⟨binding, bound, sameRnd⟩, keyed⟩
    have there := (shows_.binding home).mp bound
    have length := (ok.fixed_record fixed there).1
    have bytes := (ok.live there).2.2.record.keyBytes
    rw [length, fixed, ← keyLen] at bytes
    exact ⟨binding, bound, sameRnd, bytes.symm.trans keyed⟩
  · rintro ⟨binding, bound, sameRnd, rfl⟩
    have there := (shows_.binding home).mp bound
    have bytes := (ok.live there).2.2.record.keyBytes
    rw [fixed] at bytes
    exact ⟨⟨binding, bound, sameRnd⟩, bytes⟩

theorem TableOk.countable (long : 8 ≤ cfg.fixedValLen) (found : (List.finRange 16).find? (b.isAt hash key) = some ref) :
    Countable cfg file (hash.slot 0) hash.rnd key ref := by
  have record {other : Fin 16} (right : file.tab.LooksRight (hash.slot 0) hash.rnd other) : ∃ entry,
      c (hash.slot 0).row other = some entry := Option.ne_none_iff_exists'.mp (mt ok.pos_zero_iff.mpr right.1)
  have leads : file.tab.LeadsTo (hash.slot 0) hash.rnd key ref :=
    (leadsTo_iff ok shows_ home fixed keyLen).mpr (List.find?_some found)
  have inside := ok.used_high
  have small := ok.size.high
  have header := ok.header
  rcases record leads.1 with ⟨entry, there⟩
  rcases ok.fixed_record fixed there with ⟨_, _, len, fixedLen, low, high⟩
  refine ⟨ok.searchable fixed _, fun other right => ?_, ?_, by omega, fun other right => ?_⟩
  · rcases record right with ⟨entry', there'⟩
    have high' := (ok.fixed_record fixed there').2.2.2.2.2
    unfold Config.Checks
    rw [Nat.mod_eq_of_lt (by omega)]
    omega
  · refine (congrArg (fun leads => (List.finRange 16).find? leads) (funext fun other => ?_)).trans found
    exact Bool.eq_iff_iff.mpr (decide_eq_true_iff.trans (leadsTo_iff ok shows_ home fixed keyLen))
  · rcases record right with ⟨entry', there'⟩
    by_cases here : other = ref
    · rw [here]
      exact .inl (Nat.le_refl _)
    · have apart := ok.apart there' there fun both => here both.2.symm
      rw [len, (ok.fixed_record fixed there').2.2.1] at apart
      unfold Apart at apart ⊢
      omega

end Row

theorem StoreOk.countsAt {t : State Tables} {place : Slot} {binding : Binding} (ok : StoreOk cfg t b) (fixed : cfg.lenLen = 0)
    (long : 8 ≤ cfg.fixedValLen) (located : b.locate uidNone t.shared.tls.hash t.shared.tls.hashKey = some place)
    (bound : b place = some binding) : ∃ file ref, CountsAt cfg t file ref (leValue (binding.val.take 8)) := by
  rw [Bindings.locate, if_pos rfl, Option.map_eq_some_iff] at located
  rcases located with ⟨ref, found, rfl⟩
  rcases isAt_iff.mp (List.find?_some found) with ⟨_, same, _, keyed⟩
  rw [bound] at same
  cases same
  rcases ok.tables (t.shared.tls.hash.slot 0).win t.home (ok.tabs_lt _ _) with ⟨file, c, free, there, tableOk, shows_⟩
  have entry := (shows_.binding (show _ = t.home from rfl)).mp bound
  rcases tableOk.fixed_record fixed entry with ⟨keyLen, valLen, _⟩
  rw [keyed] at keyLen
  have bytes := (tableOk.live entry).2.2.record.valBytes
  dsimp only at bytes valLen
  rw [keyed, keyLen, valLen, fixed] at bytes
  refine ⟨file, ref, there, keyLen, tableOk.countable shows_ rfl fixed keyLen long found, ?_⟩
  rw [← bytes, read_take long]
  rfl

end Tables

section Files

variable {cfg : Config} {s : State Disk} {t t' : State Tables} {code add : Nat}

theorem addKeyVal_simulates (settled : Settled s t) : Simulates sizeLimit (addKeyVal mapped.guarded cfg add)
    (addKeyVal direct cfg add) (fun _ => Settled) s t := by
  refine simulates_bind (simulates_bind settled.modifyTls fun _ s t settled =>
    findKeyInternal_simulates guarded_faithful settled) fun result s t settled => ?_
  refine simulates_ite (fun _ => ?_) fun _ => simulates_ite (fun _ => ?_) fun _ => simulates_pure settled
  · refine simulates_bind settled.getTls fun tls s t settled => ?_
    refine simulates_bind (simulates_when (fun _ => ?_) fun _ => settled) fun _ s t settled => simulates_pure settled
    exact simulates_bind (findKeyInternal_simulates guarded_faithful settled) fun _ s t settled => simulates_pure settled
  · refine simulates_bind (putLoop_simulates guarded_faithful settled) fun _ s t settled => ?_
    exact simulates_bind settled.modifyTls fun _ s t settled => simulates_pure settled

theorem Settled.add_ran (settled : Settled s t) (run : addKeyVal direct cfg add t = ⟨.ok code, t', 0⟩) :
    ∃ s', addKeyVal mapped cfg add s = ⟨.ok code, s', 0⟩ ∧ Settled s' t' := by
  rcases (addKeyVal_simulates settled).run run (by decide) with ⟨s', run', settled'⟩
  exact ⟨s', (addKeyVal_follows mapped_lowest add).run run', settled'⟩

theorem Settled.takenBy (settled : Settled s t) (process : Nat) (tls : Tls) :
    Settled (s.takenBy process tls) (t.withTls fun _ => tls) := by
  rcases ((@Settled.switch _ _ process settled).modifyTls (f := fun _ => tls)).run (modifyTls_run t _) (by decide) with
    ⟨s', run, settled'⟩
  cases run
  exact settled'

theorem Settled.fileOf (settled : Settled s t) (slot : Slot) :
    s.fileOf slot = t.map.fileAt (.tab slot.win ((t.shared.wins slot.win).tabs slot.tab)) := by
  rw [← settled.tables_eq.1, ← settled.tables_eq.2]
  rfl

end Files

end SharedHashFile.Store
