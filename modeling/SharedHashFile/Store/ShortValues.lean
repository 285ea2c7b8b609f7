import SharedHashFile.Store.AccountingRuns
import SharedHashFile.Store.CounterRuns

namespace SharedHashFile.Store

open ByteMemory Program LinkedList

def State.tableItems (cfg : Config) (t : State Tables) : Items := fun slot =>
  (t.map.fileAt (.tab slot.win ((t.shared.wins slot.win).tabs slot.tab))).bind fun file =>
    file.tab.itemAt cfg slot.tab slot.row slot.ref

section Items

variable {cfg : Config} {s : State Disk} {t : State Tables} {b : Bindings}

theorem Settled.items (settled : Settled s t) : s.items cfg = t.tableItems cfg :=
  funext fun slot => by rw [State.items, State.tableItems, settled.fileOf]

theorem opened_itemAt (file : File) (slot : Slot) :
    (Tables.opened file).tab.itemAt cfg slot.tab slot.row slot.ref = file.tab.itemAt cfg slot.tab slot.row slot.ref := by
  unfold Tables.opened
  split
  · rfl
  · rfl

theorem StoreOk.tableItems (ok : StoreOk cfg t b) : t.tableItems cfg = b.items := by
  funext slot
  rcases ok.tables slot.win _ (ok.tabs_lt slot.win slot.tab) with ⟨file, c, free, there, tableOk, shows_⟩
  have there : t.map.fileAt (.tab slot.win ((t.shared.wins slot.win).tabs slot.tab)) = some file := there
  rw [State.tableItems, there, Option.bind_some, ← tableOk.itemAt shows_, opened_itemAt]

theorem items_others {place : Slot} (bound : ∀ old, b place = some old → old.key = key) {new : Option Binding}
    (keyed : ∀ value, new = some value → value.key = key) {slot : Slot} {item : Item} (other : item.key ≠ key) :
    Bindings.items (Function.update b place new) slot = some item ↔ b.items slot = some item := by
  rcases item with ⟨itemKey, val⟩
  rw [Bindings.items_some, Bindings.items_some]
  by_cases same : slot = place
  · subst same
    rw [Function.update_self]
    constructor
    · rintro ⟨rnd, there⟩
      exact absurd (keyed _ there) other
    · rintro ⟨rnd, there⟩
      exact absurd (bound _ there) other
  · rw [Function.update_of_ne same]

end Items

section Missing

variable {cfg : Config} {t : State Tables} {b : Bindings}

end Missing

section Reusing

variable {cfg : Config} {data : Memory} {pos : Nat} {key bytes : List UInt8}

variable {t : State Tables} {win : Fin 256} {tab : Nat} {file : File} {c : Contents} {free : List Nat}

end Reusing

/-- A table with a record behind the others whose value may be shorter than the lookup takes it to be. -/
structure Behind (cfg : Config) (file : File) (key bytes : List UInt8) (file' : File) : Prop where
  size : file'.size = cfg.grownFor file.size file.tab.tabUsed (cfg.recordLen key.length bytes.length)
  good : GoodSize file'.size
  header : file'.tab.tabSize = file'.size
  room : file.tab.tabUsed + cfg.recordLen key.length bytes.length ≤ file'.size
  data : file'.tab.data = writeRecord cfg file.tab.data file.tab.tabUsed key (.copy bytes)
  dataFree : file'.tab.tabDataFree = file.tab.tabDataFree

section Behind

variable {cfg : Config} {t : State Tables} {win : Fin 256} {tab : Nat} {file file' : File} {c : Contents} {free : List Nat}
  {key bytes : List UInt8}

theorem Behind.held {ptr : Ptr} (behind : Behind cfg file key bytes file') (there : t.map.fileAt ptr = some file') :
    Held t ptr file' := by
  have low := behind.good.low
  exact ⟨there, by unfold dataOffset; omega⟩

theorem Behind.setRef {row : Fin 512} {ref : Fin 16} {value : Ref} (behind : Behind cfg file key bytes file') :
    Behind cfg file key bytes ⟨file'.size, file'.tab.setRef row ref value⟩ :=
  ⟨behind.size, behind.good, behind.header, behind.room, behind.data, behind.dataFree⟩

theorem Behind.read_before {pos len : Nat} (behind : Behind cfg file key bytes file') (before : pos + len ≤ file.tab.tabUsed) :
    read file'.tab.data pos len = read file.tab.data pos len := by
  rw [behind.data]
  exact read_congr fun i _ below => writeRecord_outside (.inl (by omega))

theorem Behind.keyBytes (behind : Behind cfg file key bytes file') (fixed : cfg.lenLen = 0) :
    read file'.tab.data (file.tab.tabUsed + 1) key.length = key := by
  rw [behind.data]
  unfold writeRecord
  simp only [writeLens, fixed, add_zero]
  refine (read_write_apart (.inl (Nat.le_refl _))).trans ?_
  exact read_write_same _ _ _

theorem Behind.valBytes (behind : Behind cfg file key bytes file') (fixed : cfg.lenLen = 0) :
    read file'.tab.data (file.tab.tabUsed + 1 + key.length) bytes.length = bytes := by
  rw [behind.data]
  unfold writeRecord
  simp only [writeLens, fixed, add_zero]
  exact read_write_same _ _ _

theorem row_of_setRef {row : Fin 512} {ref other : Fin 16} {value : Ref}
    (rows : file'.tab.row = (file.tab.setRef row ref value).row) :
    file'.tab.row row other = if other = ref then value else file.tab.row row other := by
  rw [rows, Tab.setRef_row]
  simp only [true_and]

theorem TableOk.before {row row' : Fin 512} {ref ref' : Fin 16} {value : Ref} (ok : TableOk cfg file c free)
    (fixed : cfg.lenLen = 0) (rows : file'.tab.row = (file.tab.setRef row ref value).row) (away : ¬(row' = row ∧ ref' = ref))
    (used : (file'.tab.row row' ref').pos ≠ 0) :
    file'.tab.row row' ref' = file.tab.row row' ref' ∧ dataOffset ≤ (file.tab.row row' ref').pos ∧
      (file.tab.row row' ref').pos + 1 + cfg.fixedKeyLen + cfg.fixedValLen ≤ file.tab.tabUsed := by
  have same : file'.tab.row row' ref' = file.tab.row row' ref' := by rw [rows, Tab.setRef_row, if_neg away]
  rw [same] at used
  rcases Option.ne_none_iff_exists'.mp (mt ok.pos_zero_iff.mpr used) with ⟨entry, there⟩
  rcases ok.fixed_record fixed there with ⟨_, _, _, len, low, high⟩
  exact ⟨same, low, by omega⟩

section Search

variable {b : Bindings} {tabs : Fin 2048 → Nat} {hash : Hash} {ref other : Fin 16}
  (behind : Behind cfg file key bytes file') (ok : TableOk cfg file c free)
  (rows : file'.tab.row = (file.tab.setRef (hash.slot 0).row ref ⟨(hash.slot 0).tab, hash.rnd, file.tab.tabUsed⟩).row)
  (fixed : cfg.lenLen = 0) (keyLen : key.length = cfg.fixedKeyLen)
include behind ok rows fixed keyLen

theorem Behind.searchable : Searchable cfg file' (hash.slot 0).row := by
  refine ⟨behind.good, behind.header, fun other used => ?_⟩
  have room := behind.room
  have inside := ok.used_low
  unfold Config.recordLen at room
  by_cases here : other = ref
  · rw [row_of_setRef rows, if_pos here]
    exact ⟨inside, by change file.tab.tabUsed + 1 + cfg.fixedKeyLen ≤ _; omega⟩
  · rcases ok.before fixed rows (fun both => here both.2) used with ⟨same, low, high⟩
    rw [same]
    exact ⟨low, by omega⟩

/-- The lookup comes to the new record and to no other. -/
theorem Behind.leads (shows_ : Shows c (hash.slot 0).win tab tabs b) (home : tabs (hash.slot 0).tab = tab)
    (absent : ∀ other, b.isAt hash key other = false) :
    file'.tab.LeadsTo (hash.slot 0) hash.rnd key other ↔ other = ref := by
  constructor
  · intro leads
    by_contra away
    rcases ok.before fixed rows (fun both => away both.2) leads.1.1 with ⟨same, low, high⟩
    have kept := behind.read_before (show (file.tab.row (hash.slot 0).row other).pos + 1 + key.length ≤ _ by omega)
    unfold Tab.LeadsTo Tab.LooksRight at leads
    rw [same, kept] at leads
    have here := (leadsTo_iff ok shows_ home fixed keyLen).mp leads
    rw [absent] at here
    cases here
  · rintro rfl
    have same := @row_of_setRef _ _ _ _ other _ rows
    rw [if_pos rfl] at same
    have low := ok.used_low
    unfold Tab.LeadsTo Tab.LooksRight
    rw [same]
    exact ⟨⟨by dsimp only; unfold dataOffset at low; omega, rfl, rfl⟩, behind.keyBytes fixed⟩

theorem Behind.countable (shows_ : Shows c (hash.slot 0).win tab tabs b) (home : tabs (hash.slot 0).tab = tab)
    (absent : ∀ other, b.isAt hash key other = false) (eight : bytes.length = 8) (reads : cfg.Checks file'.tab file.tab.tabUsed) :
    Countable cfg file' (hash.slot 0) hash.rnd key ref := by
  have searchable := behind.searchable ok rows fixed keyLen
  have same := @row_of_setRef _ _ _ _ ref _ rows
  rw [if_pos rfl] at same
  have room := behind.room
  have used := ok.used_high
  have small := ok.size.high
  have header := behind.header
  unfold Config.recordLen at room
  refine ⟨searchable, fun other right => ?_, ?_, by rw [same]; change file.tab.tabUsed + 1 + _ + 8 ≤ _; omega,
    fun other right => ?_⟩
  · by_cases here : other = ref
    · rw [here, same]
      exact reads
    · rcases ok.before fixed rows (fun both => here both.2) right.1 with ⟨same', low, high⟩
      have len : cfg.fixedLen = 1 + cfg.fixedKeyLen + cfg.fixedValLen := by
        unfold Config.fixedLen Config.recordLen
        omega
      rw [same']
      unfold Config.Checks
      rw [Nat.mod_eq_of_lt (by omega)]
      omega
  · refine find_only (List.mem_finRange ref) fun other => decide_eq_true_iff.trans ?_
    exact behind.leads ok rows fixed keyLen shows_ home absent
  · rw [same]
    by_cases here : other = ref
    · rw [here, same]
      exact .inl (Nat.le_refl _)
    · rcases ok.before fixed rows (fun both => here both.2) right.1 with ⟨same', low, high⟩
      rw [same']
      unfold Apart
      change _ ≤ file.tab.tabUsed + 1 + _ ∨ _
      omega

end Search

end Behind

/-- A record of the running thread's key which the lookup finds, and takes to end outside of the table. -/
structure LostAt (cfg : Config) (t : State Tables) (file : File) (ref : Fin 16) : Prop where
  there : t.map.fileAt (.tab (t.shared.tls.hash.slot 0).win t.home) = some file
  keyLen : t.shared.tls.hashKey.length = cfg.fixedKeyLen
  searchable : Searchable cfg (Tables.opened file) (t.shared.tls.hash.slot 0).row
  leads : ∀ other, (Tables.opened file).tab.LeadsTo (t.shared.tls.hash.slot 0) t.shared.tls.hash.rnd t.shared.tls.hashKey other ↔
    other = ref
  fails : ¬ cfg.Checks (Tables.opened file).tab ((Tables.opened file).tab.row (t.shared.tls.hash.slot 0).row ref).pos

section Lost

variable {cfg : Config} {t t' : State Tables} {file : File} {ref : Fin 16}

theorem LostAt.congr (lost : LostAt cfg t file ref) (same : SameKey t t') (map : t'.map = t.map) : LostAt cfg t' file ref := by
  rcases lost with ⟨there, keyLen, searchable, leads, fails⟩
  refine ⟨?_, ?_, ?_, ?_, ?_⟩
  · rw [same.home, same.hash, map]
    exact there
  · rw [same.hashKey, keyLen]
  · rw [same.hash]
    exact searchable
  · rw [same.hash, same.hashKey]
    exact leads
  · rw [same.hash]
    exact fails

end Lost

/-- That check of a record for which `SHF_TAB_APPEND` has made room for 8 value bytes, behind the `used` ones. -/
def Config.Reads (cfg : Config) (size used : Nat) : Prop :=
  (used + cfg.fixedLen) % 2^32 ≤ cfg.grownFor size used (cfg.recordLen cfg.fixedKeyLen 8)

/-- The next record will be read: it goes to the place of a deleted one, or passes the check. -/
def File.ReadsNext (cfg : Config) (file : File) : Prop :=
  (Tables.opened file).tab.tabDataFreePos ≠ 0 ∨ cfg.Reads (Tables.opened file).size (Tables.opened file).tab.tabUsed

/-- What the put of a counter leaves whose place is longer: the lookup finds it, or stops at it. -/
structure ShortPut (cfg : Config) (t : State Tables) (b : Bindings) (bytes : List UInt8) (reads : Prop) (t' : State Tables) :
    Prop where
  hash : t'.shared.tls.hash = t.shared.tls.hash
  hashKey : t'.shared.tls.hashKey = t.shared.tls.hashKey
  others : ∀ slot item, item.key ≠ t.shared.tls.hashKey → (t'.tableItems cfg slot = some item ↔ b.items slot = some item)
  counts : reads → ∃ file ref, CountsAt cfg t' file ref (leValue bytes)
  lost : ¬ reads → ∃ file ref, LostAt cfg t' file ref

section Put

variable {cfg : Config} {t t' : State Tables} {b : Bindings} {file file' : File} {c : Contents} {free : List Nat}
  {bytes : List UInt8} {ref : Fin 16}

theorem Placed.shortPut {rest : List UInt8} {reads : Prop} (placed : Placed cfg t b (.copy (bytes ++ rest)) ref t')
    (fixed : cfg.lenLen = 0) (long : 8 ≤ cfg.fixedValLen) (eight : bytes.length = 8)
    (absent : b.locate uidNone t.shared.tls.hash t.shared.tls.hashKey = none) (holds : reads) :
    ShortPut cfg t b bytes reads t' := by
  have hash : t'.shared.tls.hash = t.shared.tls.hash := by rw [placed.tls]
  have hashKey : t'.shared.tls.hashKey = t.shared.tls.hashKey := by rw [placed.tls]
  refine ⟨hash, hashKey, fun slot item other => ?_, fun _ => ?_, fun not => absurd holds not⟩
  · rw [placed.ok.tableItems]
    refine items_others (fun old there => ?_) (fun value same => by cases same; rfl) other
    cases (placed.free (t.shared.tls.hash.slot 0).tab rfl).symm.trans there
  · have ok := placed.ok
    rw [← hash, ← hashKey] at ok absent
    have counts := ok.countsAt fixed long (locate_bound absent _) (Function.update_self _ _ _)
    rwa [PutVal.bytes, List.take_left' eight] at counts

theorem ShortPut.iff {reads reads' : Prop} (short : ShortPut cfg t b bytes reads t') (same : reads ↔ reads') :
    ShortPut cfg t b bytes reads' t' :=
  ⟨short.hash, short.hashKey, short.others, fun holds => short.counts (same.mpr holds),
    fun fails => short.lost (mt same.mp fails)⟩

theorem ShortPut.after {t'' : State Tables} {reads : Prop} (short : ShortPut cfg t b bytes reads t') (same : SameKey t' t'')
    (map : t''.map = t'.map) : ShortPut cfg t b bytes reads t'' := by
  refine ⟨same.hash.trans short.hash, same.hashKey.trans short.hashKey, fun slot item other => ?_, fun holds => ?_,
    fun fails => ?_⟩
  · rw [← short.others slot item other]
    unfold State.tableItems
    rw [map, same.frame.tabs]
  · rcases short.counts holds with ⟨file, ref, counts⟩
    exact ⟨file, ref, counts.congr same map⟩
  · rcases short.lost fails with ⟨file, ref, lost⟩
    exact ⟨file, ref, lost.congr same map⟩

theorem Behind.itemAt {row row' : Fin 512} {ref' : Fin 16} {tab : Fin 2048} {value : Ref} {key : List UInt8}
    (behind : Behind cfg file key bytes file') (ok : TableOk cfg file c free) (fixed : cfg.lenLen = 0)
    (rows : file'.tab.row = (file.tab.setRef row ref value).row) (away : ¬(row' = row ∧ ref' = ref)) :
    file'.tab.itemAt cfg tab row' ref' = file.tab.itemAt cfg tab row' ref' := by
  have same : file'.tab.row row' ref' = file.tab.row row' ref' := by rw [rows, Tab.setRef_row, if_neg away]
  unfold Tab.itemAt
  rw [same]
  by_cases used : (file.tab.row row' ref').pos ≠ 0
  · rcases ok.before fixed rows away (same.symm ▸ used) with ⟨_, _, high⟩
    have items : recordItem cfg file'.tab.data (file.tab.row row' ref').pos =
        recordItem cfg file.tab.data (file.tab.row row' ref').pos := by
      simp only [recordItem, fixed, add_zero, if_true]
      rw [behind.read_before (by omega), behind.read_before (by omega)]
    rw [items]
  · rw [if_neg fun both => used both.1, if_neg fun both => used both.1]

theorem Behind.others {slot : Slot} {item : Item} (ok : StoreOk cfg t b) (fixed : cfg.lenLen = 0)
    (keyLen : t.shared.tls.hashKey.length = cfg.fixedKeyLen) (tableOk : TableOk cfg file c free)
    (shows_ : Shows c (t.shared.tls.hash.slot 0).win t.home (t.shared.wins (t.shared.tls.hash.slot 0).win).tabs b)
    (none_ : c (t.shared.tls.hash.slot 0).row ref = none) (behind : Behind cfg file t.shared.tls.hashKey bytes file')
    (rows : file'.tab.row = (file.tab.setRef (t.shared.tls.hash.slot 0).row ref
      ⟨(t.shared.tls.hash.slot 0).tab, t.shared.tls.hash.rnd, file.tab.tabUsed⟩).row)
    (frame : Frame (· = .tab (t.shared.tls.hash.slot 0).win t.home) t t')
    (there : t'.map.fileAt (.tab (t.shared.tls.hash.slot 0).win t.home) = some file')
    (other : item.key ≠ t.shared.tls.hashKey) : t'.tableItems cfg slot = some item ↔ b.items slot = some item := by
  by_cases home : Ptr.tab slot.win ((t.shared.wins slot.win).tabs slot.tab) = .tab (t.shared.tls.hash.slot 0).win t.home
  · rcases slot with ⟨win, tab, row, ref'⟩
    rcases Ptr.tab.inj home with ⟨rfl, here⟩
    unfold State.tableItems
    dsimp only at here ⊢
    rw [frame.tabs, here, there, Option.bind_some]
    by_cases place : row = (t.shared.tls.hash.slot 0).row ∧ ref' = ref
    · rcases place with ⟨rfl, rfl⟩
      have free : b.items ⟨(t.shared.tls.hash.slot 0).win, tab, (t.shared.tls.hash.slot 0).row, ref'⟩ = none :=
        Bindings.items_none.mpr (shows_.free none_ here)
      rw [free]
      refine ⟨fun found => absurd ?_ other, fun found => nomatch found⟩
      unfold Tab.itemAt at found
      rw [row_of_setRef rows, if_pos rfl] at found
      split at found
      · cases found
        simp only [recordItem, fixed, add_zero, if_true, ← keyLen]
        exact behind.keyBytes fixed
      · cases found
    · have items := @TableOk.itemAt _ _ _ _ (t.shared.wins (t.shared.tls.hash.slot 0).win).tabs b
        ⟨(t.shared.tls.hash.slot 0).win, tab, row, ref'⟩ tableOk (here.symm ▸ shows_)
      rw [behind.itemAt tableOk fixed rows place, ← items]
  · rw [← ok.tableItems]
    unfold State.tableItems
    rw [frame.tabs, frame.files _ home]

theorem Behind.shortPut (ok : StoreOk cfg t b) (fixed : cfg.lenLen = 0)
    (keyLen : t.shared.tls.hashKey.length = cfg.fixedKeyLen)
    (absent : ∀ other, b.isAt t.shared.tls.hash t.shared.tls.hashKey other = false) (tableOk : TableOk cfg file c free)
    (shows_ : Shows c (t.shared.tls.hash.slot 0).win t.home (t.shared.wins (t.shared.tls.hash.slot 0).win).tabs b)
    (none_ : c (t.shared.tls.hash.slot 0).row ref = none) (eight : bytes.length = 8)
    (behind : Behind cfg file t.shared.tls.hashKey bytes file')
    (rows : file'.tab.row = (file.tab.setRef (t.shared.tls.hash.slot 0).row ref
      ⟨(t.shared.tls.hash.slot 0).tab, t.shared.tls.hash.rnd, file.tab.tabUsed⟩).row)
    (frame : Frame (· = .tab (t.shared.tls.hash.slot 0).win t.home) t t')
    (there : t'.map.fileAt (.tab (t.shared.tls.hash.slot 0).win t.home) = some file')
    (hash : t'.shared.tls.hash = t.shared.tls.hash) (hashKey : t'.shared.tls.hashKey = t.shared.tls.hashKey) :
    ShortPut cfg t b bytes (cfg.Checks file'.tab file.tab.tabUsed) t' := by
  have same : SameKey t t' := ⟨frame.mono fun _ _ => trivial, hash, hashKey⟩
  have searchable := behind.searchable tableOk rows fixed keyLen
  have opened := searchable.opened
  have here := @row_of_setRef _ _ _ _ ref _ rows
  rw [if_pos rfl] at here
  rw [← same.hash, ← same.home] at there
  refine ⟨hash, hashKey, fun slot item other => ?_, fun reads => ⟨file', ref, there, ?_, ?_, ?_⟩,
    fun fails => ⟨file', ref, there, ?_, ?_, ?_, ?_⟩⟩
  · exact behind.others ok fixed keyLen tableOk shows_ none_ rows frame (same.hash ▸ same.home ▸ there) other
  · rw [hashKey, keyLen]
  · rw [opened, hash, hashKey]
    exact behind.countable tableOk rows fixed keyLen shows_ rfl absent eight reads
  · rw [opened, hash, Tab.countAt, here, ← keyLen, ← eight]
    exact congrArg leValue (behind.valBytes fixed)
  · rw [hashKey, keyLen]
  · rw [opened, hash]
    exact searchable
  · intro other
    rw [opened, hash, hashKey]
    exact behind.leads tableOk rows fixed keyLen shows_ rfl absent
  · rw [opened, hash, here]
    exact fails

/-- The rest of a put behind the others, whose table has no garbage and so is not shrunk. -/
theorem Behind.placing_ends {t2 : State Tables} (ok : StoreOk cfg t b) (fixed : cfg.lenLen = 0) (long : 8 < cfg.fixedValLen)
    (keyLen : t.shared.tls.hashKey.length = cfg.fixedKeyLen)
    (absent : b.locate uidNone t.shared.tls.hash t.shared.tls.hashKey = none) (counted : Counted cfg file c free)
    (shows_ : Shows c (t.shared.tls.hash.slot 0).win t.home (t.shared.wins (t.shared.tls.hash.slot 0).win).tabs b)
    (none_ : c (t.shared.tls.hash.slot 0).row ref = none) (spent : file.tab.tabDataFreePos = 0) (eight : bytes.length = 8)
    (behind : Behind cfg file t.shared.tls.hashKey bytes file') (rows : file'.tab.row = file.tab.row)
    (moves : Moves (.tab (t.shared.tls.hash.slot 0).win t.home) file' t t2) : Ends sizeLimit (do
      modifyTab direct (.tab (t.shared.tls.hash.slot 0).win t.home) fun tab => tab.setRef (t.shared.tls.hash.slot 0).row ref
        ⟨(t.shared.tls.hash.slot 0).tab, t.shared.tls.hash.rnd, file.tab.tabUsed⟩
      let tab ← tabAt direct (.tab (t.shared.tls.hash.slot 0).win t.home)
      when (tab.tabDataUsed * 20 % 2^32 / 100 < tab.tabDataFree) (tabShrink direct cfg (t.shared.tls.hash.slot 0).win t.home)
      modifyTls fun tls => { tls with uid := (t.shared.tls.hash.slot ref).uid }
      pure true : Operation Tables Bool)
      (fun done t' => done = true ∧ ShortPut cfg t b bytes (file.ReadsNext cfg) t') (fun _ _ => False) t2 := by
  refine ends_after (modifyTab_run (behind.held moves.there) _) ?_
  generalize placed : (⟨(t.shared.tls.hash.slot 0).tab, t.shared.tls.hash.rnd, file.tab.tabUsed⟩ : Ref) = value
  have behind3 := @Behind.setRef _ _ _ _ _ (t.shared.tls.hash.slot 0).row ref value behind
  have moves3 := moves.trans (Moves.set t2 _ ⟨file'.size, file'.tab.setRef (t.shared.tls.hash.slot 0).row ref value⟩)
  have rows3 : (file'.tab.setRef (t.shared.tls.hash.slot 0).row ref value).row =
      (file.tab.setRef (t.shared.tls.hash.slot 0).row ref value).row := by
    rw [Tab.setRef, Tab.setRef, rows]
  refine ends_after (tabAt_run (behind3.held moves3.there)) ?_
  generalize t2.setFile _ _ = t3 at moves3
  have dataFree := counted.dataFree ⟨fixed, by omega⟩
  rw [counted.ok.none_listed spent, List.length_nil, Nat.zero_mul, ← behind3.dataFree] at dataFree
  rcases modifyTls_step t3 fun tls => { tls with uid := (t.shared.tls.hash.slot ref).uid } with ⟨t4, run4, map4, tls4, frame4⟩
  refine ends_after (when_false (by omega) _ _) (ends_after run4 (ends_pure ⟨rfl, ?_⟩))
  subst placed
  refine (behind3.shortPut ok fixed keyLen (locate_none_iff.mp absent) counted.ok shows_ none_ eight rows3
    (moves3.frame.trans (frame4.mono fun _ => False.elim)) (map4 ▸ moves3.there) ?_ ?_).iff ?_
  · rw [tls4, ← moves3.tls]
  · rw [tls4, ← moves3.tls]
  · unfold Config.Checks File.ReadsNext Config.Reads
    rw [counted.ok.opened, or_iff_right (not_not.mpr spent), behind3.header, behind3.size, keyLen, eight]

end Put

def Items.count (items : Items) (tabs : Fin 2048 → Nat) (slot : Slot) : Nat :=
  ∑ row, ∑ ref, if ∃ i, tabs i = tabs slot.tab ∧ (items ⟨slot.win, i, row, ref⟩).isSome then 1 else 0

section Splitting

variable {cfg : Config} {t t' : State Tables} {b : Bindings} {file : File} {c : Contents} {bytes : List UInt8} {slot : Slot}

theorem Packed.count {tabs : Fin 2048 → Nat} (packed : Packed cfg file c) (fixed : cfg.lenLen = 0)
    (shows_ : Shows c slot.win (tabs slot.tab) tabs b) :
    file.size = cfg.packedSize (b.items.count tabs slot) ∧
      file.tab.tabUsed = dataOffset + b.items.count tabs slot * cfg.fixedLen := by
  have bytes : c.bytes cfg = b.items.count tabs slot * cfg.fixedLen := by
    unfold Contents.bytes Items.count
    simp only [Finset.sum_mul]
    refine Finset.sum_congr rfl fun row _ => Finset.sum_congr rfl fun ref _ => ?_
    cases there : c row ref with
    | none =>
      rw [if_neg, Nat.zero_mul]
      · rfl
      · rintro ⟨i, here, some_⟩
        rw [Bindings.items_none.mpr (shows_.free there here)] at some_
        cases some_
    | some entry =>
      rcases (shows_ row ref entry).mp there with ⟨here, bound⟩
      rw [if_pos ⟨entry.tab, here, by rw [Bindings.items, bound]; rfl⟩, Nat.one_mul]
      exact (packed.counted.ok.fixed_record fixed there).2.2.1
  rcases packed.size fixed with ⟨n, whole, size⟩
  have long : 0 < cfg.fixedLen := by
    unfold Config.fixedLen Config.recordLen
    omega
  rw [← Nat.eq_of_mul_eq_mul_right long (whole.symm.trans bytes), ← whole]
  exact ⟨size, packed.used⟩

section Loop

variable (linkable : cfg.Linkable) (fixed : cfg.lenLen = 0) (long : 8 < cfg.fixedValLen) (eight : bytes.length = 8)
include linkable fixed long eight

end Loop

end Splitting

end SharedHashFile.Store
