import SharedHashFile.Lock.RwLock
import SharedHashFile.Store.Counters
import SharedHashFile.Store.FullRow

namespace SharedHashFile.Store

open ByteMemory Program

/-- The lock of the window which `shf_find_key_internal` takes. -/
def FindKeyAnd.lockMode : FindKeyAnd → Lock.Mode
  | .addr | .copyVal | .atomAdd => .reader
  | .copyKey | .delete | .update => .writer

/-- `SHF_GET_TAB_MMAP` where there is nothing to do but a first mapping. -/
def Disk.mapUnchanged (win : Fin 256) (tab : Nat) : Program Stop Disk Unit := do
  let d ← get
  when (d.mine win tab).isNone (Disk.mapFirst win tab)
  let (off, t) ← Disk.headerAt win tab
  check (t.tabSize ≠ 0 ∧ off.tabSize = t.tabSize) .wild

/-- A way to the tables through which none of them can be changed. -/
def readOnly : Mapping Disk where
  lowest := 0
  getTabMmap := Disk.mapUnchanged
  look := Disk.look
  store d _ _ := d
  grow _ _ _ := stop .wild
  create _ _ := stop .wild
  replace _ _ := stop .wild
  release := stop .wild

def Disk.Same (files : Nat → File) (path : Fin 256 → Nat → Option Nat) (d : Disk) : Prop := d.files = files ∧ d.path = path

section Keeping

variable {files : Nat → File} {path : Fin 256 → Nat → Option Nat}

theorem mapFirst_keeps {win : Fin 256} {tab : Nat} : Keeps (Disk.Same files path) (Disk.mapFirst win tab) := by
  refine keeps_bind ?_ fun size => keeps_bind (keeps_check _ _) fun _ => keeps_bind ?_ fun _ => ?_
  · refine keeps_bind keeps_get fun d => ?_
    split
    · exact keeps_pure _
    · exact keeps_stop _
  · refine keeps_bind keeps_get fun d => ?_
    split
    · exact keeps_bind (keeps_check _ _) fun _ => keeps_modify fun _ same => same
    · exact keeps_stop _
  · exact keeps_bind (keeps_modify fun _ same => same) fun _ => keeps_modify fun _ same => same

theorem headerAt_keeps {win : Fin 256} {tab : Nat} : Keeps (Disk.Same files path) (Disk.headerAt win tab) := by
  refine keeps_bind keeps_get fun d => ?_
  split
  · exact keeps_pure _
  · exact keeps_stop _

theorem readOnly_steady : readOnly.Steady (Disk.Same files path) where
  getTabMmap _ _ := keeps_bind keeps_get fun _ => keeps_bind (keeps_when fun _ => mapFirst_keeps) fun _ =>
    keeps_bind headerAt_keeps fun _ => keeps_check _ _
  store _ _ _ same := same
  grow _ _ _ := keeps_stop _
  release := keeps_stop _

end Keeping

section Lookups

variable {μ : Type} {m : Mapping μ} {cfg : Config} {used : Fin 256 → Nat} {J : μ → Prop} {slot : Slot} {tab : Nat}

theorem loadRecord_keeps {win : Fin 256} {pos : Nat} : Keeps (Steady used J) (loadRecord m cfg win tab pos) := by
  refine keeps_bind tabAt_keeps fun _ => keeps_bind (keeps_check _ _) fun _ => keeps_bind access_keeps fun _ => ?_
  refine keeps_bind recordLens_keeps fun _ => keeps_bind (keeps_check _ _) fun _ => keeps_bind (keeps_check _ _) fun _ => ?_
  exact keeps_bind (modifyTls_keeps _) fun _ => keeps_pure _

theorem searchRow_keeps {rnd : Nat} {refs : List (Fin 16)} : Keeps (Steady used J) (searchRow m cfg slot tab rnd refs) := by
  induction refs with
  | nil => exact keeps_pure _
  | cons ref rest ih =>
    refine keeps_bind tabAt_keeps fun _ => keeps_ite (fun _ => ?_) fun _ => ih
    refine keeps_bind loadRecord_keeps fun _ => keeps_bind getTls_keeps fun _ => keeps_ite (fun _ => ?_) fun _ => ?_
    · exact keeps_bind (modifyWin_keeps fun _ => rfl) fun _ => ih
    · refine keeps_bind readMem_keeps fun _ => keeps_ite (fun _ => ?_) fun _ => keeps_pure _
      exact keeps_bind (modifyWin_keeps fun _ => rfl) fun _ => ih

theorem findKeyOrUid_keeps {uid : Nat} : Keeps (Steady used J) (findKeyOrUid m cfg uid slot tab) := by
  refine keeps_ite (fun _ => ?_) fun _ => ?_
  · refine keeps_bind (modifyTls_keeps _) fun _ => keeps_bind getTls_keeps fun _ => keeps_bind searchRow_keeps fun found => ?_
    cases found with
    | none => exact keeps_pure _
    | some record => exact keeps_bind (modifyTls_keeps _) fun _ => keeps_pure _
  · refine keeps_bind tabAt_keeps fun _ => keeps_ite (fun _ => ?_) fun _ => keeps_pure _
    exact keeps_bind loadRecord_keeps fun _ => keeps_pure _

theorem copyVal_keeps {win : Fin 256} {valLen : Nat} : Keeps (Steady used J) (copyVal m win tab valLen) :=
  keeps_bind getTls_keeps fun _ => keeps_bind readMem_keeps fun _ => modifyTls_keeps _

theorem searchRow_readOnly {rnd : Nat} {refs : List (Fin 16)} :
    searchRow readOnly cfg slot tab rnd refs = searchRow mapped cfg slot tab rnd refs := by
  induction refs with
  | nil => rfl
  | cons ref rest ih =>
    rw [searchRow, searchRow, ih]
    rfl

theorem findKeyOrUid_readOnly {uid : Nat} :
    findKeyOrUid readOnly cfg uid slot tab = findKeyOrUid mapped cfg uid slot tab := by
  unfold findKeyOrUid findKey
  simp only [searchRow_readOnly]
  rfl

end Lookups

/-- The files are what they were, but that `shf_add_key_val_atom` and its like have written 8 bytes at `shf_val_addr`
    to the table of the lookup. -/
def Wrote (what : FindKeyAnd) (win : Fin 256) (tab : Nat) (tls : Tls) (d d' : Disk) : Prop :=
  d'.path = d.path ∧ ∀ file, d'.files file = d.files file ∨ what = .atomAdd ∧ d.path win tab = some file ∧
    ∃ bytes, bytes.length = 8 ∧
      d'.files file = (d.files file).withData (write (d.files file).tab.data (tls.valAddr.getD 0) bytes)

/-- A run ends as one which cannot change a table; what it writes nevertheless is a counter. -/
structure Alike (what : FindKeyAnd) (win : Fin 256) (tab : Nat) (run dry : Outcome Stop (State Disk) Nat) : Prop where
  value : run.value = dry.value
  shared : run.state.shared = dry.state.shared
  wrote : Wrote what win tab run.state.shared.tls dry.state.map run.state.map

section AtomAdd

variable {s : State Disk} {ptr : Ptr} {off : Nat}

theorem alike_refl {what : FindKeyAnd} {win : Fin 256} {tab : Nat} (run : Outcome Stop (State Disk) Nat) :
    Alike what win tab run run := ⟨rfl, rfl, rfl, fun _ => .inl rfl⟩

theorem access_cases (len : Nat) : access mapped ptr off len s = ⟨.error .wild, s, 0⟩ ∨
    ∃ view, s.map.look ptr = some view ∧ viewAt mapped ptr s = ⟨.ok view, s, 0⟩ ∧
      access mapped ptr off len s = ⟨.ok (), s, 0⟩ := by
  cases seen : s.map.look ptr with
  | none =>
    have run : viewAt mapped ptr s = ⟨.error .wild, s, 0⟩ := by
      simp only [viewAt, onMap, zoom, show mapped.look s.map ptr = none from seen]
    exact .inl (bind_error run)
  | some view =>
    by_cases large : dataOffset ≤ view.reach
    · have run : viewAt mapped ptr s = ⟨.ok view, s, 0⟩ := by
        simp only [viewAt, onMap, zoom, show mapped.look s.map ptr = some view from seen, if_pos large]
      have above : len = 0 ∨ mapped.lowest ≤ off := .inr (Nat.zero_le _)
      have first {f : Unit → Operation Disk Unit} : (check (len = 0 ∨ mapped.lowest ≤ off) .below >>= f) s = f () s :=
        bind_ok (check_true above _ _)
      by_cases inside : len = 0 ∨ off + len ≤ view.reach
      · exact .inr ⟨view, rfl, run, (bind_ok run).trans (first.trans (check_true inside _ _))⟩
      · exact .inl ((bind_ok run).trans (first.trans (check_false inside _ _)))
    · have run : viewAt mapped ptr s = ⟨.error .wild, s, 0⟩ := by
        simp only [viewAt, onMap, zoom, show mapped.look s.map ptr = some view from seen, if_neg large]
      exact .inl (bind_error run)

theorem atomAdd_alike {win : Fin 256} {tab valLen : Nat} {mine : Off} (own : s.map.mine win tab = some mine)
    (path : s.map.path win tab = some mine.file) (low : dataOffset ≤ s.shared.tls.valAddr.getD 0) :
    Alike .atomAdd win tab (atomAdd mapped win tab valLen s) (atomAdd readOnly win tab valLen s) := by
  unfold atomAdd
  split
  · have tls : getTls s = ⟨.ok s.shared.tls, s, 0⟩ := rfl
    rw [bind_ok tls, bind_ok tls]
    rcases @access_cases s (.tab win tab) (s.shared.tls.valAddr.getD 0) 8 with wild | ⟨view, seen, viewed, inside⟩
    · have read : readMem mapped (.tab win tab) (s.shared.tls.valAddr.getD 0) 8 s = ⟨.error .wild, s, 0⟩ := bind_error wild
      have read' : readMem readOnly (.tab win tab) (s.shared.tls.valAddr.getD 0) 8 s = ⟨.error .wild, s, 0⟩ := read
      rw [bind_error read, bind_error read']
      exact alike_refl _
    · have read : readMem mapped (.tab win tab) (s.shared.tls.valAddr.getD 0) 8 s =
          ⟨.ok (read view.tab.bytes (s.shared.tls.valAddr.getD 0) 8), s, 0⟩ := by
        have tabbed : tabAt mapped (.tab win tab) s = ⟨.ok view.tab, s, 0⟩ := bind_ok viewed
        rw [readMem, bind_ok inside, bind_ok tabbed]
        rfl
      have read' : readMem readOnly (.tab win tab) (s.shared.tls.valAddr.getD 0) 8 s =
          ⟨.ok (ByteMemory.read view.tab.bytes (s.shared.tls.valAddr.getD 0) 8), s, 0⟩ := read
      rw [bind_ok read, bind_ok read']
      generalize (leValue _ + s.shared.tls.valLong) % 2^64 = sum
      have inside' : access mapped (.tab win tab) (s.shared.tls.valAddr.getD 0) (leBytes 8 sum).length s =
          ⟨.ok (), s, 0⟩ := by
        rw [leBytes_length]
        exact inside
      have dryInside : access readOnly (.tab win tab) (s.shared.tls.valAddr.getD 0) (leBytes 8 sum).length s =
          ⟨.ok (), s, 0⟩ := inside'
      have dryViewed : viewAt readOnly (.tab win tab) s = ⟨.ok view, s, 0⟩ := viewed
      have written : writeMem mapped (.tab win tab) (s.shared.tls.valAddr.getD 0) (leBytes 8 sum) s =
          ⟨.ok (), ⟨s.shared, s.map.store (.tab win tab)
            { view.tab with data := write view.tab.data (s.shared.tls.valAddr.getD 0) (leBytes 8 sum) }⟩, 0⟩ := by
        rw [writeMem, bind_ok inside', modifyTab, bind_ok viewed, ← Tab.writeBytes_data (.inr low)]
        rfl
      have dryWritten : writeMem readOnly (.tab win tab) (s.shared.tls.valAddr.getD 0) (leBytes 8 sum) s =
          ⟨.ok (), s, 0⟩ := by
        rw [writeMem, bind_ok dryInside, modifyTab, bind_ok dryViewed]
        rfl
      rw [bind_ok written, bind_ok dryWritten]
      have view_eq : view.tab = (s.map.files mine.file).tab := by
        simp only [Disk.look, Disk.offAt, own, Option.map_some, Option.some.injEq] at seen
        rw [← seen]
      have stored : s.map.store (.tab win tab) { view.tab with
            data := write view.tab.data (s.shared.tls.valAddr.getD 0) (leBytes 8 sum) } =
          s.map.setFile mine.file ((s.map.files mine.file).withData
            (write (s.map.files mine.file).tab.data (s.shared.tls.valAddr.getD 0) (leBytes 8 sum))) := by
        simp only [Disk.store, Disk.offAt, own, view_eq]
        rfl
      rw [stored]
      refine ⟨rfl, rfl, rfl, fun file => ?_⟩
      by_cases here : file = mine.file
      · right
        subst here
        refine ⟨rfl, path, leBytes 8 sum, leBytes_length _ _, ?_⟩
        exact (Disk.setFile_files _).trans (if_pos rfl)
      · left
        exact (Disk.setFile_files _).trans (if_neg here)
  · exact alike_refl _

end AtomAdd

def State.Finds (cfg : Config) (uid : Nat) (s : State Disk) : Prop :=
  if uid = uidNone then ¬ (s.items cfg).Missing s.shared.tls.hash s.shared.tls.hashKey else s.items cfg (uidSlot uid) ≠ none

def State.tabOf {μ : Type} (s : State μ) (uid : Nat) : Nat :=
  (s.shared.wins (s.shared.tls.slotOf uid).win).tabs (s.shared.tls.slotOf uid).tab

/-- Nothing has to be done to the table of a lookup before it can be used, nor is it left to be shrunk afterwards. -/
structure Spared (cfg : Config) (uid : Nat) (what : FindKeyAnd) (s : State Disk) : Prop where
  opened : ∀ file ∈ s.fileOf (s.shared.tls.slotOf uid), file.tab.tabSize ≠ 0
  current : ∀ off ∈ s.map.mine (s.shared.tls.slotOf uid).win (s.tabOf uid),
    s.map.path (s.shared.tls.slotOf uid).win (s.tabOf uid) = some off.file ∧
    off.tabSize = (s.map.files off.file).tab.tabSize
  clean : what = .copyVal → s.Finds cfg uid →
    ∀ file ∈ s.fileOf (s.shared.tls.slotOf uid), file.tab.tabDataFree ≤ file.tab.tabDataUsed / 4

theorem mapUnchanged_eq {keep : Fin 256 → Nat → Prop} {d : Disk} {win : Fin 256} {tab file : Nat}
    (coherent : d.Coherent keep) (path : d.path win tab = some file) (opened : (d.files file).tab.tabSize ≠ 0)
    (current : ∀ off ∈ d.mine win tab, d.path win tab = some off.file ∧ off.tabSize = (d.files off.file).tab.tabSize) :
    Disk.mapUnchanged win tab d = Disk.getTabMmap win tab d := by
  have good := (coherent.sizes path).1
  have header := (coherent.sizes path).2.resolve_left opened
  have same {d' : Disk} {off : Off} (mine : d'.mine win tab = some off) (used : (d'.files off.file).tab.tabSize ≠ 0)
      (size : off.tabSize = (d'.files off.file).tab.tabSize) : (do
        let (off, t) ← Disk.headerAt win tab
        check (t.tabSize ≠ 0 ∧ off.tabSize = t.tabSize) .wild : Program Stop Disk Unit) d' =
      (do
        Disk.initHeader win tab
        Disk.remap win tab : Program Stop Disk Unit) d' := by
    rw [bind_ok (Disk.headerAt_run mine), bind_ok (Disk.initHeader_used mine used), Disk.remap_same mine size]
    exact check_true ⟨used, size⟩ _ _
  have inside := @Disk.not_strays d win tab (coherent.tab_lt path)
  rw [Disk.mapUnchanged, Disk.getTabMmap, bind_ok (get_run d), bind_ok (get_run d), bind_ok (check_true inside _ _)]
  cases mine : d.mine win tab with
  | none =>
    rcases Disk.mapFirst_run path good with ⟨d', run, a, b, c, rfl⟩
    have first : when (Option.isNone (none : Option Off) = true) (Disk.mapFirst win tab) d = _ := run
    rw [bind_ok first, bind_ok first]
    have mapped : ((d.setMine win tab (some ⟨file, (d.files file).size, (d.files file).size⟩)).counting a b c).mine
        win tab = some ⟨file, (d.files file).size, (d.files file).size⟩ := by
      rw [Disk.counting_mine, Disk.setMine_self]
    exact same mapped opened header.symm
  | some off =>
    rcases current off mine with ⟨path', size⟩
    rw [path] at path'
    cases path'
    have first : when (Option.isNone (some off) = true) (Disk.mapFirst win tab) d = ⟨.ok (), d, 0⟩ :=
      when_false Bool.false_ne_true _ _
    rw [bind_ok first, bind_ok first]
    exact same mine opened size

theorem InUse.finds {cfg : Config} {s : State Disk} {b : Bindings} {uid : Nat} {place : Slot} (inUse : InUse cfg s b)
    (located : b.locate uid s.shared.tls.hash s.shared.tls.hashKey = some place) : s.Finds cfg uid := by
  unfold State.Finds
  rw [inUse.items]
  by_cases byKey : uid = uidNone
  · rw [if_pos byKey]
    subst byKey
    rcases Bindings.locate_in_triple located with ⟨ref, binding, rfl, bound, same⟩
    intro missing
    exact missing ref _ (Bindings.items_some.mpr ⟨_, bound⟩) same
  · rw [if_neg byKey]
    unfold Bindings.locate at located
    rw [if_neg byKey] at located
    split at located
    · rename_i there
      intro none_
      rw [Bindings.items_none.mp none_] at there
      cases there
    · cases located

/-- The lookup of `shf_find_key_internal` in the table files, up to where it found nothing or acts on a record. -/
structure Looked (cfg : Config) (s : State Disk) (b : Bindings) (uid : Nat) (slot : Slot) (tab file : Nat)
    (found : Option Found) (s1 s2 : State Disk) (t : State Tables) : Prop where
  slot_eq : s.shared.tls.slotOf uid = slot
  home : (s.shared.wins slot.win).tabs slot.tab = tab
  path : s.map.path slot.win tab = some file
  getTabMmap : onMap (mapped.getTabMmap slot.win tab) s = ⟨.ok (), s1, 0⟩
  search : findKeyOrUid mapped cfg uid slot tab s1 = ⟨.ok found, s2, 0⟩
  tracks : ∃ L, L.old = false ∧ Tracks (also (fun _ _ => False) slot.win tab) L s2 t
  paths : s2.map.path = s.map.path
  record : match b.locate uid s.shared.tls.hash s.shared.tls.hashKey with
    | none => found = none
    | some _ => ∃ record binding c free, found = some record ∧
        AtRecord cfg t b slot tab record binding (Tables.opened (s.map.files file)) c free

section Looking

variable {cfg : Config} {s s1 s2 : State Disk} {b : Bindings} {uid file : Nat} {found : Option Found} {t : State Tables}
  {slot : Slot} {tab : Nat}

theorem InUse.looked (inUse : InUse cfg s b) (uid : Nat) :
    ∃ slot tab file found s1 s2 t, Looked cfg s b uid slot tab file found s1 s2 t := by
  rcases inUse with ⟨t, ⟨L, tracks, numbered, none_⟩, ok⟩
  obtain ⟨slot, slot_eq⟩ : ∃ slot, s.shared.tls.slotOf uid = slot := ⟨_, rfl⟩
  obtain ⟨tab, home⟩ : ∃ tab, (s.shared.wins slot.win).tabs slot.tab = tab := ⟨_, rfl⟩
  have shared := tracks.shared
  have tabs : (s.shared.wins slot.win).tabs = L.tabs slot.win := by
    rw [shared, ← tracks.layout]
    rfl
  have home1 : (t.shared.wins slot.win).tabs slot.tab = tab := by rw [← shared, home]
  have used : tab < (t.shared.wins slot.win).tabsUsed := home1 ▸ ok.tabs_lt _ _
  have present : L.present slot.win tab = true := by
    rw [← home, tabs]
    exact (numbered.present_iff _ _).mpr (numbered.tabs_lt _ _)
  rcases tracks.path present with ⟨file, path⟩
  have there := tracks.table path
  rcases ok.tables slot.win tab used with ⟨_, c, free, there', tableOk, shows_⟩
  rw [there] at there'
  cases there'
  have known : Known (also (fun _ _ => False) slot.win tab) (.tab slot.win tab) := .inr ⟨rfl, rfl⟩
  obtain ⟨s1, run1, tracks1⟩ : ∃ s1, onMap (mapped.getTabMmap slot.win tab) s = ⟨.ok (), s1, 0⟩ ∧
      Tracks (also (fun _ _ => False) slot.win tab) L s1 _ :=
    (@getTabMmap_simulates 1 _ _ _ _ _ _ _ guarded_faithful tracks present).run (getTabMmap_ends there) (by decide)
  have path1 : s1.map.path = s.map.path := by
    rcases Disk.getTabMmap_run tracks.coherent path with ⟨d', run, _, _, _, rfl⟩
    have state := congrArg (fun run => run.state.map) run1
    change (Disk.getTabMmap slot.win tab s.map).state = s1.map at state
    rw [← state, run]
    rfl
  have slot1 : (t.setFile (.tab slot.win tab) (Tables.opened (s.map.files file))).shared.tls.slotOf uid = slot := by
    rw [State.setFile_shared, ← shared, slot_eq]
  have there1 := State.fileAt_setFile t (.tab slot.win tab) (Tables.opened (s.map.files file))
  rcases findKeyOrUid_run slot1 there1 tableOk shows_ home1 with ⟨found, t2, lookup, looked⟩
  rcases (findKeyOrUid_simulates guarded_faithful tracks1 known).run lookup (by decide) with ⟨s2, run2, tracks2⟩
  replace run2 := (findKeyOrUid_follows mapped_lowest uid).run run2
  have path2 : s2.map.path = s1.map.path := by
    have kept := @findKeyOrUid_keeps _ mapped cfg (fun win => (s1.shared.wins win).tabsUsed)
      (fun d => d.path = s1.map.path) slot tab uid s1 ⟨fun _ => rfl, rfl⟩
    rw [run2] at kept
    exact kept.map
  refine ⟨slot, tab, file, found, s1, s2, t2, slot_eq, home, path, run1, run2, ⟨L, none_, tracks2⟩, path2.trans path1, ?_⟩
  · have result := looked.found
    rw [State.setFile_shared, ← shared] at result
    cases located : b.locate uid s.shared.tls.hash s.shared.tls.hashKey with
    | none =>
      rw [located] at result
      exact result
    | some place =>
      rw [located] at result
      rcases result with ⟨record, binding, found_eq, rfl, bound, foundAt⟩
      have ok1 := ok.change (Moves.set t (.tab slot.win tab) (Tables.opened (s.map.files file))) tableOk used shows_
        fun _ _ => rfl
      have tabs2 : (t2.shared.wins slot.win).tabs = (t.shared.wins slot.win).tabs := looked.frame.tabs slot.win
      refine ⟨record, binding, c, free, found_eq, ok1.untouched looked.map looked.frame, ?_, ?_, tableOk, ?_, bound, foundAt⟩
      · rw [tabs2, home1]
      · rw [looked.map]
        exact there1
      · rw [tabs2]
        exact shows_

/-- From the lookup on, the call acts on what was found. -/
theorem Looked.call (looked : Looked cfg s b uid slot tab file found s1 s2 t) (what : FindKeyAnd) (m : Mapping Disk)
    (getTabMmap : onMap (m.getTabMmap slot.win tab) s = ⟨.ok (), s1, 0⟩)
    (search : findKeyOrUid m cfg uid slot tab s1 = ⟨.ok found, s2, 0⟩) :
    findKeyInternal m cfg uid what s = (match found with
      | some record => actOn m cfg slot tab record what
      | none => (do
        modifyTls fun tls => { tls with valAddr := none }
        pure retKeyNone : Operation Disk Nat)) s2 := by
  have tls : getTls s = ⟨.ok s.shared.tls, s, 0⟩ := rfl
  have win : getWin slot.win s = ⟨.ok (s.shared.wins slot.win), s, 0⟩ := rfl
  rw [findKeyInternal, bind_ok tls, ← Tls.slotOf, looked.slot_eq, bind_ok win, looked.home, bind_ok getTabMmap]
  refine (bind_ok search).trans ?_
  cases found with
  | none => rfl
  | some record => rfl

/-- A lookup which copies a value comes to where it considers to shrink the table. -/
theorem Looked.considers (looked : Looked cfg s b uid slot tab file found s1 s2 t) {place : Slot}
    (located : b.locate uid s.shared.tls.hash s.shared.tls.hashKey = some place) : ∃ record s3 t3 L,
      found = some record ∧ copyVal mapped slot.win tab record.valLen s2 = ⟨.ok (), s3, 0⟩ ∧
      tabAt mapped (.tab slot.win tab) s3 = ⟨.ok (Tables.opened (s.map.files file)).tab, s3, 0⟩ ∧
      s3.map.path = s.map.path ∧ L.old = false ∧ Tracks (also (fun _ _ => False) slot.win tab) L s3 t3 := by
  have record := looked.record
  rw [located] at record
  rcases record with ⟨record, binding, c, free, rfl, atRecord⟩
  have known : Known (also (fun _ _ => False) slot.win tab) (.tab slot.win tab) := .inr ⟨rfl, rfl⟩
  rcases looked.tracks with ⟨L, none_, tracks⟩
  rcases copyVal_run atRecord with ⟨t3, copied, map3, tls3, frame3⟩
  have atRecord3 := atRecord.withTls map3 frame3 (by rw [tls3]) (by rw [tls3])
  rcases (copyVal_simulates guarded_faithful tracks known).run copied (by decide) with ⟨s3, run3, tracks3⟩
  replace run3 := (copyVal_follows mapped_lowest slot.win record.valLen).run run3
  obtain ⟨_, run4, stays, _⟩ : ∃ s4, tabAt mapped (.tab slot.win tab) s3 = ⟨.ok _, s4, 0⟩ ∧ s4 = s3 ∧ _ :=
    (@tabAt_simulates 1 _ _ _ _ _ _ guarded_faithful tracks3 known).run (tabAt_run atRecord3.held) (by decide)
  rw [stays] at run4
  have kept := @copyVal_keeps _ mapped (fun win => (s2.shared.wins win).tabsUsed) (fun d => d.path = s2.map.path) tab
    slot.win record.valLen s2 ⟨fun _ => rfl, rfl⟩
  rw [run3] at kept
  exact ⟨record, s3, t3, L, rfl, run3, run4, kept.map.trans looked.paths, none_, tracks3⟩

/-- A call with the reader's lock does nothing to a table. -/
theorem InUse.alike {what : FindKeyAnd} (inUse : InUse cfg s b) (reader : what.lockMode = .reader)
    (spared : Spared cfg uid what s) :
    Alike what (s.shared.tls.slotOf uid).win (s.tabOf uid) (findKeyInternal mapped cfg uid what s)
      (findKeyInternal readOnly cfg uid what s) := by
  have finds := fun place => @InUse.finds _ _ _ uid place inUse
  rcases spared with ⟨opened, current, clean⟩
  rcases inUse.looked uid with ⟨slot, tab, file, found, s1, s2, t, looked⟩
  have slot_eq := looked.slot_eq
  have home := looked.home
  have path := looked.path
  unfold State.fileOf at opened clean
  unfold State.tabOf at current ⊢
  rw [slot_eq, home] at opened current clean ⊢
  rw [path, Option.map_some] at opened clean
  have size := opened _ rfl
  have file_eq : Tables.opened (s.map.files file) = s.map.files file := if_neg size
  have dry1 : onMap (readOnly.getTabMmap slot.win tab) s = ⟨.ok (), s1, 0⟩ := by
    rw [← looked.getTabMmap]
    rcases inUse with ⟨_, ⟨_, tracks, _⟩, _⟩
    unfold onMap zoom
    change Outcome.mk (Disk.mapUnchanged slot.win tab s.map).value _ _ = _
    simp only [readOnly, mapUnchanged_eq tracks.coherent path size current]
    rfl
  have dry2 : findKeyOrUid readOnly cfg uid slot tab s1 = ⟨.ok found, s2, 0⟩ := by
    rw [findKeyOrUid_readOnly]
    exact looked.search
  rw [looked.call what mapped looked.getTabMmap looked.search, looked.call what readOnly dry1 dry2]
  cases found with
  | none => exact alike_refl _
  | some record =>
    cases what with
    | addr => exact alike_refl _
    | atomAdd =>
      rcases looked.tracks with ⟨_, _, tracks⟩
      rcases tracks.coherent.kept (.inr ⟨rfl, rfl⟩) with ⟨off, own, path2, _⟩
      have low : dataOffset ≤ s2.shared.tls.valAddr.getD 0 := by
        have looked := looked.record
        cases located : b.locate uid s.shared.tls.hash s.shared.tls.hashKey with
        | none =>
          rw [located] at looked
          cases looked
        | some place =>
          rw [located] at looked
          rcases looked with ⟨_, _, _, _, _, atRecord⟩
          rw [tracks.shared]
          exact atRecord.valAddr_low
      exact atomAdd_alike own path2 low
    | copyVal =>
      cases located : b.locate uid s.shared.tls.hash s.shared.tls.hashKey with
      | none =>
        have none_ := looked.record
        rw [located] at none_
        cases none_
      | some place =>
        rcases looked.considers located with ⟨_, s3, _, _, same, run3, run4, _⟩
        cases same
        have low := clean rfl (finds _ located) _ rfl
        rw [file_eq] at run4
        have keeps (m : Mapping Disk) (tabbed : tabAt m (.tab slot.win tab) s3 = ⟨.ok (s.map.files file).tab, s3, 0⟩) :
            considerTabShrink m cfg slot.win tab s3 = ⟨.ok (), s3, 0⟩ := by
          rw [considerTabShrink, bind_ok tabbed]
          exact when_false (Nat.not_lt.mpr low) _ _
        have dry3 : copyVal readOnly slot.win tab record.valLen s2 = ⟨.ok (), s3, 0⟩ := run3
        have act (m : Mapping Disk) : actOn m cfg slot tab record .copyVal = (do
            copyVal m slot.win tab record.valLen
            considerTabShrink m cfg slot.win tab
            pure retKeyFound : Operation Disk Nat) := rfl
        simp only [act]
        rw [bind_ok run3, bind_ok dry3, bind_ok (keeps mapped run4), bind_ok (keeps readOnly run4)]
        exact alike_refl _
    | copyKey => cases reader
    | delete => cases reader
    | update => cases reader

end Looking

/-- Whatever a call with the reader's lock does, it cannot change a table which is only there to be read. -/
theorem readOnly_keeps {cfg : Config} {uid : Nat} {what : FindKeyAnd} {used : Fin 256 → Nat} {files : Nat → File}
    {path : Fin 256 → Nat → Option Nat} (reader : what.lockMode = .reader) :
    Keeps (Steady used (Disk.Same files path)) (findKeyInternal readOnly cfg uid what) := by
  refine keeps_bind getTls_keeps fun tls => keeps_bind (getWin_keeps _) fun w => ?_
  refine keeps_bind (onMap_keeps (readOnly_steady.getTabMmap _ _)) fun _ => keeps_bind findKeyOrUid_keeps fun found => ?_
  cases found with
  | none => exact keeps_bind (modifyTls_keeps _) fun _ => keeps_pure _
  | some record =>
    cases what with
    | addr => exact keeps_pure _
    | copyVal =>
      refine keeps_bind copyVal_keeps fun _ => keeps_bind (keeps_bind tabAt_keeps fun _ => ?_) fun _ => keeps_pure _
      exact keeps_when fun _ => tabShrink_keeps readOnly_steady fun _ _ => keeps_stop _
    | atomAdd =>
      refine keeps_ite (fun _ => ?_) fun _ => keeps_pure _
      refine keeps_bind getTls_keeps fun _ => keeps_bind readMem_keeps fun _ => ?_
      exact keeps_bind (writeMem_keeps readOnly_steady) fun _ => keeps_bind (modifyTls_keeps _) fun _ => keeps_pure _
    | copyKey => cases reader
    | delete => cases reader
    | update => cases reader

end SharedHashFile.Store
