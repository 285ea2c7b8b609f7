import SharedHashFile.LinkedList.Chain
import SharedHashFile.Store.Records
import SharedHashFile.Store.Coherence

namespace SharedHashFile.Store

open ByteMemory LinkedList

/-- What a ref stands for; `tab` is the redirection it was put under. -/
structure Entry where
  tab : Fin 2048
  rnd : Nat
  key : List UInt8
  val : List UInt8

abbrev Contents := Fin 512 → Fin 16 → Option Entry

def Contents.set (c : Contents) (row : Fin 512) (ref : Fin 16) (entry : Option Entry) : Contents :=
  Function.update c row (Function.update (c row) ref entry)

theorem Contents.set_apply (c : Contents) (row row' : Fin 512) (ref ref' : Fin 16) (entry : Option Entry) :
    c.set row ref entry row' ref' = if row' = row ∧ ref' = ref then entry else c row' ref' := by
  simp only [set, Function.update_apply]
  by_cases sameRow : row' = row <;> by_cases sameRef : ref' = ref <;> simp [sameRow, sameRef]

theorem Tab.setRef_row (tab : Tab) (row row' : Fin 512) (ref ref' : Fin 16) (value : Ref) :
    (tab.setRef row ref value).row row' ref' = if row' = row ∧ ref' = ref then value else tab.row row' ref' := by
  simp only [setRef, Function.update_apply]
  by_cases sameRow : row' = row <;> by_cases sameRef : ref' = ref <;> simp [sameRow, sameRef]

def Entry.len (cfg : Config) (entry : Entry) : Nat := cfg.recordLen entry.key.length entry.val.length

def Config.fixedLen (cfg : Config) : Nat := cfg.recordLen cfg.fixedKeyLen cfg.fixedValLen

theorem Config.Fits.recordLen {cfg : Config} {key val : List UInt8} (fits : cfg.Fits key val)
    (fixed : cfg.lenLen = 0) : cfg.recordLen key.length val.length = cfg.fixedLen := by
  obtain ⟨keyLen, valLen⟩ := fits fixed
  rw [keyLen, valLen]
  rfl

/-- A record within the used part of a table. -/
structure Stored (cfg : Config) (tab : Tab) (pos : Nat) (key val : List UInt8) : Prop where
  low : dataOffset ≤ pos
  high : pos + cfg.recordLen key.length val.length ≤ tab.tabUsed
  record : RecordAt cfg tab.data pos key val

/-- Where the link of a deleted record is. -/
def nextFree (data : Memory) (pos : Nat) : Nat := u32At data (pos + 5)

/-- A table in use: its refs stand for `c`, and `free` is its list of deleted records. -/
structure TableOk (cfg : Config) (file : File) (c : Contents) (free : List Nat) : Prop where
  size : GoodSize file.size
  header : file.tab.tabSize = file.size
  used_low : dataOffset ≤ file.tab.tabUsed
  used_high : file.tab.tabUsed ≤ file.size
  tail : ∀ i, file.tab.tabUsed ≤ i → file.tab.data i = 0
  dead : ∀ {row ref}, c row ref = none → (file.tab.row row ref).pos = 0
  live : ∀ {row ref e}, c row ref = some e → (file.tab.row row ref).tab = e.tab ∧
    (file.tab.row row ref).rnd = e.rnd ∧ Stored cfg file.tab (file.tab.row row ref).pos e.key e.val
  apart : ∀ {row ref e row' ref' e'}, c row ref = some e → c row' ref' = some e' →
    ¬(row' = row ∧ ref' = ref) →
    Apart (file.tab.row row ref).pos (e.len cfg) (file.tab.row row' ref').pos (e'.len cfg)
  chain : Chain 0 (nextFree file.tab.data) file.tab.tabDataFreePos free
  spare : ∀ {p}, p ∈ free → cfg.lenLen = 0 ∧ 8 ≤ cfg.fixedKeyLen + cfg.fixedValLen ∧ dataOffset ≤ p ∧
    p + cfg.fixedLen ≤ file.tab.tabUsed
  spare_live : ∀ {p row ref e}, p ∈ free → c row ref = some e →
    Apart p cfg.fixedLen (file.tab.row row ref).pos (e.len cfg)
  spare_apart : free.Pairwise fun p q => Apart p cfg.fixedLen q cfg.fixedLen

/-- A record which no ref leads to yet. -/
structure Pending (cfg : Config) (file : File) (c : Contents) (free : List Nat) (pos : Nat)
    (key val : List UInt8) : Prop where
  stored : Stored cfg file.tab pos key val
  live : ∀ {row ref e}, c row ref = some e →
    Apart pos (cfg.recordLen key.length val.length) (file.tab.row row ref).pos (e.len cfg)
  spare : ∀ {p}, p ∈ free → Apart pos (cfg.recordLen key.length val.length) p cfg.fixedLen

def relisted (file : File) (first : Nat) : File := { file with tab := { file.tab with tabDataFreePos := first } }

section Changes

variable {cfg : Config} {file : File} {c : Contents} {free : List Nat} {row : Fin 512} {ref : Fin 16}
  {entry : Entry} {pos : Nat} {key val : List UInt8}

theorem TableOk.occupied (ok : TableOk cfg file c free) (there : c row ref = some entry) :
    (file.tab.row row ref).pos ≠ 0 := by
  have low := (ok.live there).2.2.low
  unfold dataOffset at low
  omega

theorem TableOk.pos_zero_iff (ok : TableOk cfg file c free) :
    (file.tab.row row ref).pos = 0 ↔ c row ref = none := by
  refine ⟨fun zero => ?_, ok.dead⟩
  cases found : c row ref with
  | none => rfl
  | some entry => exact absurd zero (ok.occupied found)

theorem TableOk.first_lt (ok : TableOk cfg file c free) : file.tab.tabDataFreePos < 2^32 := by
  have used := ok.used_high
  have high := ok.size.high
  rw [ok.chain.first_eq]
  cases free with
  | nil => decide
  | cons p free =>
    have inside := (ok.spare List.mem_cons_self).2.2.2
    rw [firstOr_cons]
    omega

theorem TableOk.none_listed (ok : TableOk cfg file c free) (none_ : file.tab.tabDataFreePos = 0) : free = [] := by
  cases free with
  | nil => rfl
  | cons p free =>
    have low := (ok.spare List.mem_cons_self).2.2.1
    have same := ok.chain.uncons.1
    unfold dataOffset at low
    omega

/-- Links lie within the deleted records they are in. -/
theorem TableOk.chain_congr {data : Memory} (ok : TableOk cfg file c free)
    (same : ∀ p ∈ free, ∀ i, p ≤ i → i < p + cfg.fixedLen → data i = file.tab.data i) :
    Chain 0 (nextFree data) file.tab.tabDataFreePos free := by
  refine ok.chain.congr fun p member => u32At_congr fun i low high => same p member i (by omega) ?_
  have large := (ok.spare member).2.1
  unfold Config.fixedLen Config.recordLen
  omega

theorem TableOk.counting {refsUsed dataFree dataUsed : Nat} (ok : TableOk cfg file c free) :
    TableOk cfg { file with tab := { file.tab with
      tabRefsUsed := refsUsed, tabDataFree := dataFree, tabDataUsed := dataUsed } } c free :=
  ⟨ok.size, ok.header, ok.used_low, ok.used_high, ok.tail, ok.dead, fun there =>
    ⟨(ok.live there).1, (ok.live there).2.1, (ok.live there).2.2.low, (ok.live there).2.2.high,
      (ok.live there).2.2.record⟩, ok.apart, ok.chain, ok.spare, ok.spare_live, ok.spare_apart⟩

theorem Pending.counting {refsUsed dataFree dataUsed : Nat} (pending : Pending cfg file c free pos key val) :
    Pending cfg { file with tab := { file.tab with
      tabRefsUsed := refsUsed, tabDataFree := dataFree, tabDataUsed := dataUsed } } c free pos key val :=
  ⟨⟨pending.stored.low, pending.stored.high, pending.stored.record⟩, pending.live, pending.spare⟩

theorem TableOk.growing {size : Nat} (ok : TableOk cfg file c free) (good : GoodSize size)
    (larger : file.size ≤ size) :
    TableOk cfg ⟨size, { file.tab with tabSize := size }⟩ c free :=
  ⟨good, rfl, ok.used_low, Nat.le_trans ok.used_high larger, ok.tail, ok.dead, fun there =>
    ⟨(ok.live there).1, (ok.live there).2.1, (ok.live there).2.2.low, (ok.live there).2.2.high,
      (ok.live there).2.2.record⟩, ok.apart, ok.chain, ok.spare, ok.spare_live, ok.spare_apart⟩

theorem TableOk.truncate_tab {size : Nat} (ok : TableOk cfg file c free) (larger : file.size ≤ size) :
    (file.truncate size).tab = file.tab := by
  have same : (fun i => if i < size then file.tab.data i else 0) = file.tab.data := by
    funext i
    split
    · rfl
    · have high := ok.used_high
      exact (ok.tail i (by omega)).symm
  simp only [File.truncate, same]

theorem TableOk.placing {tab : Fin 2048} {rnd : Nat} (ok : TableOk cfg file c free)
    (pending : Pending cfg file c free pos key val) :
    TableOk cfg { file with tab := file.tab.setRef row ref ⟨tab, rnd, pos⟩ }
      (c.set row ref (some ⟨tab, rnd, key, val⟩)) free := by
  refine ⟨ok.size, ok.header, ok.used_low, ok.used_high, ok.tail, fun {row' ref'} gone => ?_,
    fun {row' ref' e} there => ?_, fun {row1 ref1 e1 row2 ref2 e2} one two differ => ?_, ok.chain, ok.spare,
    fun {p row' ref' e} member there => ?_, ok.spare_apart⟩
  · rw [Contents.set_apply] at gone
    split at gone
    · cases gone
    · rename_i away
      rw [Tab.setRef_row, if_neg away]
      exact ok.dead gone
  · rw [Contents.set_apply] at there
    rw [Tab.setRef_row]
    split at there
    · rename_i here
      cases there
      rw [if_pos here]
      exact ⟨rfl, rfl, pending.stored.low, pending.stored.high, pending.stored.record⟩
    · rename_i away
      rw [if_neg away]
      obtain ⟨sameTab, sameRnd, stored⟩ := ok.live there
      exact ⟨sameTab, sameRnd, stored.low, stored.high, stored.record⟩
  · rw [Contents.set_apply] at one two
    rw [Tab.setRef_row, Tab.setRef_row]
    split at one <;> split at two
    · rename_i here there
      exact absurd ⟨there.1.trans here.1.symm, there.2.trans here.2.symm⟩ differ
    · rename_i here away
      cases one
      rw [if_pos here, if_neg away]
      exact pending.live two
    · rename_i away here
      cases two
      rw [if_neg away, if_pos here]
      exact (pending.live one).symm
    · rename_i away away'
      rw [if_neg away, if_neg away']
      exact ok.apart one two differ
  · rw [Contents.set_apply] at there
    rw [Tab.setRef_row]
    split at there
    · rename_i here
      cases there
      rw [if_pos here]
      exact (pending.spare member).symm
    · rename_i away
      rw [if_neg away]
      exact ok.spare_live member there

/-- The record `SHF_TAB_APPEND` writes behind the others. -/
theorem TableOk.appending {value : PutVal} (ok : TableOk cfg file c free)
    (storable : cfg.Storable file.tab.data file.tab.tabUsed key value) (keyLen : key.length < 2^32)
    (valLen : value.len < 2^32)
    (room : file.tab.tabUsed + cfg.recordLen key.length value.len ≤ file.size) :
    let file' : File := { file with tab := { file.tab with
      data := writeRecord cfg file.tab.data file.tab.tabUsed key value
      tabUsed := file.tab.tabUsed + cfg.recordLen key.length value.len } }
    TableOk cfg file' c free ∧ Pending cfg file' c free file.tab.tabUsed key value.bytes := by
  have low := ok.used_low
  have same (i : Nat) (below : i < file.tab.tabUsed) :
      writeRecord cfg file.tab.data file.tab.tabUsed key value i = file.tab.data i :=
    writeRecord_outside (.inl below)
  refine ⟨⟨ok.size, ok.header, Nat.le_trans low (Nat.le_add_right _ _), room, fun i above => ?_, ok.dead,
    fun there => ?_, ok.apart, ok.chain_congr fun p member i _ high => ?_, fun member => ?_, ok.spare_live,
    ok.spare_apart⟩, ⟨low, ?_, writeRecord_record storable keyLen valLen⟩, fun there => ?_, fun member => ?_⟩
  · exact (writeRecord_outside (.inr above)).trans (ok.tail i (Nat.le_trans (Nat.le_add_right _ _) above))
  · obtain ⟨sameTab, sameRnd, stored⟩ := ok.live there
    refine ⟨sameTab, sameRnd, stored.low, Nat.le_trans stored.high (Nat.le_add_right _ _), ?_⟩
    exact stored.record.congr fun i _ high => (same i (Nat.lt_of_lt_of_le high stored.high)).symm
  · exact same i (Nat.lt_of_lt_of_le high (ok.spare member).2.2.2)
  · obtain ⟨fixed, large, above, below⟩ := ok.spare member
    exact ⟨fixed, large, above, Nat.le_trans below (Nat.le_add_right _ _)⟩
  · rw [PutVal.bytes_length]
  · exact .inr (ok.live there).2.2.high
  · exact .inr (ok.spare member).2.2.2

/-- The record `SHF_TAB_APPEND` writes over a deleted one. -/
theorem TableOk.reusing {bytes : List UInt8} {p : Nat} (ok : TableOk cfg file c (p :: free))
    (fits : cfg.Fits key bytes) (keyLen : key.length < 2^32) (valLen : bytes.length < 2^32) :
    let file' : File := { file with tab := { file.tab with
      data := writeRecord cfg file.tab.data p key (.copy bytes)
      tabDataFreePos := nextFree file.tab.data p } }
    TableOk cfg file' c free ∧ Pending cfg file' c free p key bytes := by
  obtain ⟨fixed, large, above, below⟩ := ok.spare List.mem_cons_self
  have len : cfg.recordLen key.length bytes.length = cfg.fixedLen := fits.recordLen fixed
  have same (i : Nat) (outside : i < p ∨ p + cfg.fixedLen ≤ i) :
      writeRecord cfg file.tab.data p key (.copy bytes) i = file.tab.data i :=
    writeRecord_outside (by rw [← len] at outside; exact outside)
  have others : ∀ q ∈ free, Apart p cfg.fixedLen q cfg.fixedLen := (List.pairwise_cons.mp ok.spare_apart).1
  have record := @writeRecord_record cfg file.tab.data p key (.copy bytes) ⟨fits, .inl ⟨bytes, rfl⟩⟩ keyLen valLen
  have rest := ok.chain.uncons.2
  refine ⟨⟨ok.size, ok.header, ok.used_low, ok.used_high, fun i outside => ?_, ok.dead, fun there => ?_,
    ok.apart, rest.congr fun q member => ?_, fun member => ok.spare (List.mem_cons_of_mem _ member),
    fun member there => ok.spare_live (List.mem_cons_of_mem _ member) there,
    (List.pairwise_cons.mp ok.spare_apart).2⟩, ⟨above, ?_, record⟩, fun there => ?_, fun member => ?_⟩
  · exact (same i (.inr (Nat.le_trans below outside))).trans (ok.tail i outside)
  · obtain ⟨sameTab, sameRnd, stored⟩ := ok.live there
    refine ⟨sameTab, sameRnd, stored.low, stored.high, stored.record.congr fun i low high => (same i ?_).symm⟩
    have apart := ok.spare_live List.mem_cons_self there
    unfold Apart Entry.len at apart
    omega
  · refine u32At_congr fun i low high => same i ?_
    have apart := others q member
    unfold Apart Config.fixedLen Config.recordLen at apart
    unfold Config.fixedLen Config.recordLen
    omega
  · rw [len]
    exact below
  · rw [len]
    exact ok.spare_live List.mem_cons_self there
  · rw [len]
    exact others _ member

/-- A ref is cleared, and its record's bytes are whatever `SHF_TAB_REF_MARK_AS_DELETED` makes them. -/
theorem TableOk.erasing {data : Memory} (ok : TableOk cfg file c free) (there : c row ref = some entry)
    (same : ∀ i, i < (file.tab.row row ref).pos ∨ (file.tab.row row ref).pos + entry.len cfg ≤ i →
      data i = file.tab.data i) {value : Ref} (cleared : value.pos = 0) :
    TableOk cfg { file with tab := { file.tab.setRef row ref value with data := data } }
      (c.set row ref none) free := by
  obtain ⟨_, _, old⟩ := ok.live there
  have high := old.high
  refine ⟨ok.size, ok.header, ok.used_low, ok.used_high, fun i above => ?_, fun {row' ref'} gone => ?_,
    fun {row' ref' e} other => ?_, fun {row1 ref1 e1 row2 ref2 e2} one two differ => ?_,
    ok.chain_congr fun p member i low below => ?_, ok.spare,
    fun {p row' ref' e} member other => ?_, ok.spare_apart⟩
  · exact (same i (.inr (Nat.le_trans high above))).trans (ok.tail i above)
  · change ((file.tab.setRef row ref value).row row' ref').pos = 0
    rw [Contents.set_apply] at gone
    rw [Tab.setRef_row]
    split
    · exact cleared
    · rename_i away
      rw [if_neg away] at gone
      exact ok.dead gone
  · change ((file.tab.setRef row ref value).row row' ref').tab = _ ∧
      ((file.tab.setRef row ref value).row row' ref').rnd = _ ∧
      Stored _ _ ((file.tab.setRef row ref value).row row' ref').pos _ _
    rw [Contents.set_apply] at other
    split at other
    · cases other
    · rename_i away
      rw [Tab.setRef_row, if_neg away]
      obtain ⟨sameTab, sameRnd, stored⟩ := ok.live other
      refine ⟨sameTab, sameRnd, stored.low, stored.high, stored.record.congr fun i low below => (same i ?_).symm⟩
      have apart := ok.apart there other away
      unfold Apart at apart
      unfold Entry.len at apart ⊢
      omega
  · change Apart ((file.tab.setRef row ref value).row row1 ref1).pos _
      ((file.tab.setRef row ref value).row row2 ref2).pos _
    rw [Contents.set_apply] at one two
    split at one
    · cases one
    · split at two
      · cases two
      · rename_i away away'
        rw [Tab.setRef_row, if_neg away, Tab.setRef_row, if_neg away']
        exact ok.apart one two differ
  · have apart := ok.spare_live member there
    unfold Apart at apart
    exact same i (by omega)
  · change Apart p _ ((file.tab.setRef row ref value).row row' ref').pos _
    rw [Contents.set_apply] at other
    split at other
    · cases other
    · rename_i away
      rw [Tab.setRef_row, if_neg away]
      exact ok.spare_live member other

theorem TableOk.listing {p : Nat} (ok : TableOk cfg file c free) (fixed : cfg.lenLen = 0)
    (large : 8 ≤ cfg.fixedKeyLen + cfg.fixedValLen) (low : dataOffset ≤ p)
    (high : p + cfg.fixedLen ≤ file.tab.tabUsed)
    (link : nextFree file.tab.data p = file.tab.tabDataFreePos)
    (live : ∀ {row ref e}, c row ref = some e → Apart p cfg.fixedLen (file.tab.row row ref).pos (e.len cfg))
    (apart : ∀ q ∈ free, Apart p cfg.fixedLen q cfg.fixedLen) :
    TableOk cfg (relisted file p) c (p :: free) := by
  refine ⟨ok.size, ok.header, ok.used_low, ok.used_high, ok.tail, ok.dead, fun there =>
    ⟨(ok.live there).1, (ok.live there).2.1, (ok.live there).2.2.low, (ok.live there).2.2.high,
      (ok.live there).2.2.record⟩, ok.apart, .cons ?_ (link ▸ ok.chain), fun member => ?_,
    fun member there => ?_, List.pairwise_cons.mpr ⟨apart, ok.spare_apart⟩⟩
  · change p ≠ 0
    unfold dataOffset at low
    omega
  · rcases List.mem_cons.mp member with rfl | other
    · exact ⟨fixed, large, low, high⟩
    · exact ok.spare other
  · rcases List.mem_cons.mp member with rfl | other
    · exact live there
    · exact ok.spare_live other there

theorem TableOk.updating {new : List UInt8} (ok : TableOk cfg file c free) (there : c row ref = some entry)
    (length : new.length = entry.val.length) :
    let off := (file.tab.row row ref).pos + 1 + cfg.lenLen + entry.key.length + cfg.lenLen
    TableOk cfg { file with tab := { file.tab with data := write file.tab.data off new } }
      (c.set row ref (some { entry with val := new })) free := by
  obtain ⟨sameTab, sameRnd, stored⟩ := ok.live there
  have high := stored.high
  have len : ({ entry with val := new } : Entry).len cfg = entry.len cfg := by
    unfold Entry.len
    rw [length]
  intro off
  have same (i : Nat) (outside : i < (file.tab.row row ref).pos ∨
      (file.tab.row row ref).pos + entry.len cfg ≤ i) : write file.tab.data off new i = file.tab.data i := by
    refine write_outside ?_
    unfold Entry.len Config.recordLen at outside
    omega
  have lens {row' : Fin 512} {ref' : Fin 16} {e : Entry}
      (found : c.set row ref (some { entry with val := new }) row' ref' = some e) :
      ∃ e', c row' ref' = some e' ∧ e.len cfg = e'.len cfg := by
    rw [Contents.set_apply] at found
    split at found
    · rename_i here
      cases found
      exact ⟨entry, by rw [here.1, here.2]; exact there, len⟩
    · exact ⟨e, found, rfl⟩
  refine ⟨ok.size, ok.header, ok.used_low, ok.used_high, fun i above => ?_, fun {row' ref'} gone => ?_,
    fun {row' ref' e} found => ?_, fun one two differ => ?_, ok.chain_congr fun p member i low below => ?_,
    ok.spare, fun member found => ?_, ok.spare_apart⟩
  · exact (same i (.inr (Nat.le_trans high above))).trans (ok.tail i above)
  · rw [Contents.set_apply] at gone
    split at gone
    · cases gone
    · exact ok.dead gone
  · rw [Contents.set_apply] at found
    split at found
    · rename_i here
      obtain ⟨rfl, rfl⟩ := here
      cases found
      refine ⟨sameTab, sameRnd, stored.low, ?_, stored.record.update length⟩
      rw [length]
      exact high
    · rename_i away
      obtain ⟨sameTab', sameRnd', stored'⟩ := ok.live found
      refine ⟨sameTab', sameRnd', stored'.low, stored'.high,
        stored'.record.congr fun i low below => (same i ?_).symm⟩
      have apart := ok.apart there found away
      unfold Apart at apart
      unfold Entry.len at apart ⊢
      omega
  · obtain ⟨e1, one', len1⟩ := lens one
    obtain ⟨e2, two', len2⟩ := lens two
    rw [len1, len2]
    exact ok.apart one' two' differ
  · have apart := ok.spare_live member there
    unfold Apart at apart
    exact same i (by omega)
  · obtain ⟨e', found', len'⟩ := lens found
    rw [len']
    exact ok.spare_live member found'

end Changes

end SharedHashFile.Store
