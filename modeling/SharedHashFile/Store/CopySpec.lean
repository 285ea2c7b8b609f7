import SharedHashFile.Store.AppendSpec

namespace SharedHashFile.Store

open ByteMemory Program LinkedList

section Records

variable {cfg : Config} {t : State Tables} {ptr : Ptr} {file : File} {c : Contents} {free : List Nat}
  {row : Fin 512} {ref : Fin 16} {entry : Entry}

theorem recordLens_run {pos : Nat} {key val : List UInt8} (there : t.map.fileAt ptr = some file)
    (ok : TableOk cfg file c free) (stored : Stored cfg file.tab pos key val) :
    recordLens direct cfg ptr pos t = ⟨.ok (key.length, val.length), t, 0⟩ := by
  have held := ok.held there
  have low := stored.low
  have high := stored.high
  have used := ok.used_high
  have small := ok.size.high
  unfold Config.recordLen at high
  unfold recordLens
  rcases cfg.lenLen_cases with zero | four
  · rw [if_pos zero, (stored.record.fits zero).1, (stored.record.fits zero).2]
    rfl
  · rw [if_neg (by omega), four]
    rw [four] at high
    have lens := stored.record.lens (by omega)
    rw [four] at lens
    have first : (pos + 1) % 2^32 = pos + 1 := Nat.mod_eq_of_lt (by omega)
    have second : (pos + 1 + 4 + key.length) % 2^32 = pos + 1 + 4 + key.length := Nat.mod_eq_of_lt (by omega)
    have keyLen := readU32_run held (show dataOffset ≤ pos + 1 by omega) (by omega)
    have valLen := readU32_run held (show dataOffset ≤ pos + 1 + 4 + key.length by omega) (by omega)
    rw [lens.1] at keyLen
    rw [lens.2] at valLen
    rw [first, bind_ok keyLen, second, bind_ok valLen]
    rfl

theorem readKey_run {pos : Nat} {key val : List UInt8} (there : t.map.fileAt ptr = some file)
    (ok : TableOk cfg file c free) (stored : Stored cfg file.tab pos key val) :
    readMem direct ptr ((pos + 1 + cfg.lenLen) % 2^32) key.length t = ⟨.ok key, t, 0⟩ := by
  have low := stored.low
  have high := stored.high
  have used := ok.used_high
  have small := ok.size.high
  unfold Config.recordLen at high
  rw [Nat.mod_eq_of_lt (by omega), readMem_run (ok.held there) (.inr ⟨by omega, by omega⟩),
    stored.record.keyBytes]

theorem readVal_run {pos : Nat} {key val : List UInt8} (there : t.map.fileAt ptr = some file)
    (ok : TableOk cfg file c free) (stored : Stored cfg file.tab pos key val) :
    readMem direct ptr ((pos + 1 + cfg.lenLen + key.length + cfg.lenLen) % 2^32) val.length t =
      ⟨.ok val, t, 0⟩ := by
  have low := stored.low
  have high := stored.high
  have used := ok.used_high
  have small := ok.size.high
  unfold Config.recordLen at high
  rw [Nat.mod_eq_of_lt (by omega), readMem_run (ok.held there) (.inr ⟨by omega, by omega⟩),
    stored.record.valBytes]

def clearedFile (row : Fin 512) (ref : Fin 16) (refsUsed dataFree dataUsed : Nat) (file : File) : File :=
  { file with tab := { file.tab.setRef row ref { file.tab.row row ref with pos := 0 } with
    tabRefsUsed := refsUsed, tabDataFree := dataFree, tabDataUsed := dataUsed } }

def unreferred (row : Fin 512) (ref : Fin 16) (len : Nat) (file : File) : File :=
  clearedFile row ref ((file.tab.tabRefsUsed + 2^32 - 1) % 2^32) ((file.tab.tabDataFree + len) % 2^32)
    ((file.tab.tabDataUsed + 2^32 - len) % 2^32) file

theorem clear_run {len : Nat} (size : dataOffset ≤ file.size) :
    modifyTab direct ptr (fun t => { (t.setRef row ref { t.row row ref with pos := 0 }) with
      tabDataUsed := (t.tabDataUsed + 2^32 - len) % 2^32
      tabDataFree := (t.tabDataFree + len) % 2^32
      tabRefsUsed := (t.tabRefsUsed + 2^32 - 1) % 2^32 }) (t.setFile ptr file) =
      ⟨.ok (), t.setFile ptr (unreferred row ref len file), 0⟩ := by
  refine (modifyTab_run (t.held ptr size) _).trans ?_
  rw [State.setFile_setFile, unreferred, clearedFile]

theorem clearedFile_relisted {refsUsed dataFree dataUsed first : Nat} :
    clearedFile row ref refsUsed dataFree dataUsed (relisted file first) =
      relisted (clearedFile row ref refsUsed dataFree dataUsed file) first := rfl

theorem relist_run {first : Nat} (size : dataOffset ≤ file.size) :
    modifyTab direct ptr (fun t => { t with tabDataFreePos := first }) (t.setFile ptr file) =
      ⟨.ok (), t.setFile ptr (relisted file first), 0⟩ := by
  refine (modifyTab_run (t.held ptr size) _).trans ?_
  rw [State.setFile_setFile, relisted]

section Mark

variable {keyLen valLen pos : Nat} (held : Held t ptr file) (at_ : (file.tab.row row ref).pos = pos)
  (low : dataOffset ≤ pos)
include held at_ low

theorem markVariable_run (four : cfg.lenLen = 4) (small : file.size < 2^32) (high : pos + 5 ≤ file.size) :
    tabRefMarkAsDeleted direct cfg ptr row ref keyLen valLen t =
      ⟨.ok (), t.setFile ptr (unreferred row ref ((1 + cfg.lenLen + keyLen + cfg.lenLen + valLen) % 2^32)
        (file.withData (write (write file.tab.data pos [dataTypeDeleted]) (pos + 1)
          (leBytes 4 ((keyLen + 4 + valLen) % 2^32))))), 0⟩ := by
  have whole : (pos + 1) % 2^32 = pos + 1 := Nat.mod_eq_of_lt (by omega)
  have sized := @writeU32_run _ _ _ (pos + 1) ((keyLen + 4 + valLen) % 2^32)
    (held.setData (write file.tab.data pos [dataTypeDeleted])) (by omega) (by rw [File.withData_size]; omega)
  rw [State.setFile_setFile] at sized
  rw [tabRefMarkAsDeleted, bind_ok (tabAt_run held), at_, bind_ok (writeU08_run held low (by omega)), four,
    whole, when_true (by decide), bind_ok sized, bind_ok (when_false (by omega) _ _)]
  exact clear_run held.size

theorem markShort_run (fixed : cfg.lenLen = 0) (short : keyLen + valLen < 4) (high : pos + 1 ≤ file.size) :
    tabRefMarkAsDeleted direct cfg ptr row ref keyLen valLen t =
      ⟨.ok (), t.setFile ptr (unreferred row ref ((1 + cfg.lenLen + keyLen + cfg.lenLen + valLen) % 2^32)
        (file.withData (write file.tab.data pos [dataTypeDeleted]))), 0⟩ := by
  have few : ¬(0 = 0 ∧ 4 ≤ (keyLen + valLen) % 2^32) := by omega
  rw [tabRefMarkAsDeleted, bind_ok (tabAt_run held), at_, bind_ok (writeU08_run held low (by omega)), fixed,
    bind_ok (when_false (by decide) _ _), bind_ok (when_false few _ _)]
  exact clear_run held.size

/-- With long enough fixed lengths a record is put on the list of deleted ones. -/
theorem markLinked_run (fixed : cfg.lenLen = 0) (long : 4 ≤ keyLen + valLen) (fit : keyLen + valLen < 2^32)
    (small : file.size < 2^32) (high : pos + 9 ≤ file.size) :
    tabRefMarkAsDeleted direct cfg ptr row ref keyLen valLen t =
      ⟨.ok (), t.setFile ptr (unreferred row ref ((1 + cfg.lenLen + keyLen + cfg.lenLen + valLen) % 2^32)
        (relisted (file.withData (write (write file.tab.data pos [dataTypeDeleted]) (pos + 5)
          (leBytes 4 file.tab.tabDataFreePos))) pos)), 0⟩ := by
  have whole : (pos + 1) % 2^32 + 4 = pos + 5 := by omega
  have many : 0 = 0 ∧ 4 ≤ (keyLen + valLen) % 2^32 := by omega
  have linked := @writeU32_run _ _ _ (pos + 5) file.tab.tabDataFreePos
    (held.setData (write file.tab.data pos [dataTypeDeleted])) (by omega) (by rw [File.withData_size]; omega)
  rw [State.setFile_setFile] at linked
  have listed := (bind_ok (f := fun _ => modifyTab direct ptr fun t => { t with tabDataFreePos := pos })
    linked).trans (relist_run held.size)
  rw [tabRefMarkAsDeleted, bind_ok (tabAt_run held), at_, bind_ok (writeU08_run held low (by omega)), fixed,
    bind_ok (when_false (by decide) _ _), when_true many, whole, bind_ok listed]
  exact clear_run held.size

end Mark

theorem TableOk.clearing {data : Memory} {refsUsed dataFree dataUsed : Nat} (ok : TableOk cfg file c free)
    (some_ : c row ref = some entry) (same : ∀ i, i < (file.tab.row row ref).pos ∨
      (file.tab.row row ref).pos + entry.len cfg ≤ i → data i = file.tab.data i) :
    TableOk cfg (clearedFile row ref refsUsed dataFree dataUsed (file.withData data)) (c.set row ref none) free :=
  (ok.erasing some_ same (show ({ file.tab.row row ref with pos := 0 } : Ref).pos = 0 from rfl)).counting

structure Gives (cfg : Config) (row : Fin 512) (ref : Fin 16) (len : Nat) (file : File) (free : List Nat) (file' : File)
    (free' : List Nat) : Prop where
  rows : file'.tab.row = (file.tab.setRef row ref { file.tab.row row ref with pos := 0 }).row
  used : file'.tab.tabUsed = file.tab.tabUsed
  refsUsed : file'.tab.tabRefsUsed = (file.tab.tabRefsUsed + 2^32 - 1) % 2^32
  dataFree : file'.tab.tabDataFree = (file.tab.tabDataFree + len % 2^32) % 2^32
  dataUsed : file'.tab.tabDataUsed = (file.tab.tabDataUsed + 2^32 - len % 2^32) % 2^32
  listed : cfg.lenLen = 0 → 8 ≤ cfg.fixedKeyLen + cfg.fixedValLen → free' = (file.tab.row row ref).pos :: free

theorem unreferred_cleared (row : Fin 512) (ref : Fin 16) (len : Nat) (file : File) : ∃ refsUsed dataFree dataUsed,
    unreferred row ref len file = clearedFile row ref refsUsed dataFree dataUsed file := ⟨_, _, _, rfl⟩

theorem clearedFile_gives {len refsUsed dataFree dataUsed : Nat} {base : File} {free' : List Nat}
    (rows : base.tab.row = file.tab.row)
    (used : base.tab.tabUsed = file.tab.tabUsed) (refsUsed_eq : refsUsed = (file.tab.tabRefsUsed + 2^32 - 1) % 2^32)
    (dataFree_eq : dataFree = (file.tab.tabDataFree + len % 2^32) % 2^32)
    (dataUsed_eq : dataUsed = (file.tab.tabDataUsed + 2^32 - len % 2^32) % 2^32)
    (listed : cfg.lenLen = 0 → 8 ≤ cfg.fixedKeyLen + cfg.fixedValLen → free' = (file.tab.row row ref).pos :: free) :
    Gives cfg row ref len file free (clearedFile row ref refsUsed dataFree dataUsed base) free' := by
  refine ⟨?_, used, refsUsed_eq, dataFree_eq, dataUsed_eq, listed⟩
  unfold clearedFile Tab.setRef
  rw [rows]

theorem unreferred_gives {len : Nat} {base : File} {free' : List Nat} (rows : base.tab.row = file.tab.row)
    (used : base.tab.tabUsed = file.tab.tabUsed)
    (refsUsed : base.tab.tabRefsUsed = file.tab.tabRefsUsed) (dataFree : base.tab.tabDataFree = file.tab.tabDataFree)
    (dataUsed : base.tab.tabDataUsed = file.tab.tabDataUsed)
    (listed : cfg.lenLen = 0 → 8 ≤ cfg.fixedKeyLen + cfg.fixedValLen → free' = (file.tab.row row ref).pos :: free) :
    Gives cfg row ref len file free (unreferred row ref (len % 2^32) base) free' :=
  clearedFile_gives rows used (by rw [refsUsed]) (by rw [dataFree]) (by rw [dataUsed]) listed

/-- Deleting a record leaves all others. -/
theorem tabRefMarkAsDeleted_gives (there : t.map.fileAt ptr = some file) (ok : TableOk cfg file c free)
    (linkable : cfg.Linkable) (some_ : c row ref = some entry) : ∃ file' free',
      tabRefMarkAsDeleted direct cfg ptr row ref entry.key.length entry.val.length t =
        ⟨.ok (), t.setFile ptr file', 0⟩ ∧ TableOk cfg file' (c.set row ref none) free' ∧
      Gives cfg row ref (entry.len cfg) file free file' free' := by
  obtain ⟨_, _, stored⟩ := ok.live some_
  obtain ⟨pos, at_⟩ : ∃ pos, (file.tab.row row ref).pos = pos := ⟨_, rfl⟩
  have low := stored.low
  have high := stored.high
  have used := ok.used_high
  have small := ok.size.high
  have held := ok.held there
  have typed_outside (i : Nat) (away : i < pos ∨ pos + 1 ≤ i) :
      write file.tab.data pos [dataTypeDeleted] i = file.tab.data i :=
    write_outside (by rw [List.length_singleton]; omega)
  have len_eq : 1 + cfg.lenLen + entry.key.length + cfg.lenLen + entry.val.length = entry.len cfg := rfl
  rw [at_] at low high
  unfold Config.recordLen at high
  rcases cfg.lenLen_cases with fixed | four
  · obtain ⟨keyLen, valLen⟩ := stored.record.fits fixed
    rcases linkable fixed with short | long
    · have run := @markShort_run cfg t ptr file row ref entry.key.length entry.val.length pos held
        at_ low fixed (by omega) (by omega)
      rw [len_eq] at run
      refine ⟨_, free, run, ok.clearing some_ fun i away => ?_, ?_⟩
      · rw [at_] at away
        unfold Entry.len Config.recordLen at away
        exact typed_outside i (by omega)
      · exact unreferred_gives rfl rfl rfl rfl rfl fun _ long => absurd long (by omega)
    · have run := @markLinked_run cfg t ptr file row ref entry.key.length entry.val.length pos held
        at_ low fixed (by omega) (by omega) small (by omega)
      have len : entry.len cfg = cfg.fixedLen := stored.record.fits.recordLen fixed
      have link := u32At_write_same (write file.tab.data pos [dataTypeDeleted]) (pos + 5) _ ok.first_lt
      have outside (i : Nat) (away : i < (file.tab.row row ref).pos ∨
          (file.tab.row row ref).pos + entry.len cfg ≤ i) : write (write file.tab.data pos [dataTypeDeleted])
            (pos + 5) (leBytes 4 file.tab.tabDataFreePos) i = file.tab.data i := by
        rw [at_] at away
        unfold Entry.len Config.recordLen at away
        exact (write_outside (by rw [leBytes_length]; omega)).trans (typed_outside i (by omega))
      generalize write (write file.tab.data pos [dataTypeDeleted]) (pos + 5)
        (leBytes 4 file.tab.tabDataFreePos) = data at run outside link
      rw [len_eq] at run
      refine ⟨_, pos :: free, run, ?_, ?_⟩
      rotate_left
      · exact unreferred_gives rfl rfl rfl rfl rfl fun _ _ => at_ ▸ rfl
      rcases unreferred_cleared row ref (entry.len cfg % 2^32) (relisted (file.withData data) pos) with
        ⟨refsUsed, dataFree, dataUsed, cleared⟩
      rw [cleared, clearedFile_relisted]
      refine (ok.clearing some_ outside).listing fixed long low ?_ link (fun {row' ref' e} other => ?_)
        fun q member => ?_
      · rw [← len]
        exact (by unfold Entry.len Config.recordLen; omega : pos + entry.len cfg ≤ file.tab.tabUsed)
      · rw [Contents.set_apply] at other
        split at other
        · cases other
        · rename_i away
          have apart := ok.apart some_ other away
          rw [at_, len] at apart
          change Apart pos cfg.fixedLen ((file.tab.setRef row ref _).row row' ref').pos (e.len cfg)
          rw [Tab.setRef_row, if_neg away]
          exact apart
      · have apart := (ok.spare_live member some_).symm
        rw [at_, len] at apart
        exact apart
  · have run := @markVariable_run cfg t ptr file row ref entry.key.length entry.val.length pos held
      at_ low four small (by omega)
    rw [len_eq] at run
    refine ⟨_, free, run, ok.clearing some_ fun i away => ?_, ?_⟩
    · rw [at_] at away
      unfold Entry.len Config.recordLen at away
      exact (write_outside (by rw [leBytes_length]; omega)).trans (typed_outside i (by omega))
    · exact unreferred_gives rfl rfl rfl rfl rfl fun fixed => absurd (four.symm.trans fixed) (by decide)

theorem tabRefMarkAsDeleted_run (there : t.map.fileAt ptr = some file) (ok : TableOk cfg file c free)
    (linkable : cfg.Linkable) (some_ : c row ref = some entry) : ∃ file' free',
      tabRefMarkAsDeleted direct cfg ptr row ref entry.key.length entry.val.length t =
        ⟨.ok (), t.setFile ptr file', 0⟩ ∧ TableOk cfg file' (c.set row ref none) free' := by
  rcases tabRefMarkAsDeleted_gives there ok linkable some_ with ⟨file', free', run, ok', _⟩
  exact ⟨file', free', run, ok'⟩

end Records

end SharedHashFile.Store
