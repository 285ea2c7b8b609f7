import SharedHashFile.Store.Coherence

namespace SharedHashFile.Store

open Program

namespace Disk

def counting (d : Disk) (countMmap : Nat → Nat) (tabsMmaps tabsMremaps : Fin 256 → Nat) : Disk :=
  { d with countMmap := countMmap, tabsMmaps := tabsMmaps, tabsMremaps := tabsMremaps }

/-- Equal but for the counters. -/
def Agrees (d d' : Disk) : Prop := ∃ a b c, d' = d.counting a b c

theorem Agrees.counting {d d' : Disk} (agrees : d.Agrees d') (a : Nat → Nat) (b c : Fin 256 → Nat) :
    d.Agrees (d'.counting a b c) := by
  obtain ⟨_, _, _, rfl⟩ := agrees
  exact ⟨a, b, c, rfl⟩

section Counting

variable {keep : Fin 256 → Nat → Prop} {d : Disk} {a : Nat → Nat} {b c : Fin 256 → Nat}

@[simp] theorem counting_tables : (d.counting a b c).tables = d.tables := rfl
@[simp] theorem counting_mine : (d.counting a b c).mine = d.mine := rfl
@[simp] theorem counting_path : (d.counting a b c).path = d.path := rfl
@[simp] theorem counting_files : (d.counting a b c).files = d.files := rfl

theorem Coherent.counting (coherent : d.Coherent keep) : (d.counting a b c).Coherent keep :=
  ⟨coherent.path_lt, coherent.path_inj, coherent.tab_lt, coherent.sizes, coherent.off_lt, coherent.off_size,
    coherent.off_home, coherent.off_live, coherent.off_opened, coherent.old_lt, coherent.old_len,
    coherent.old_gone, coherent.old_mine, coherent.kept⟩

end Counting

section SetMine

variable {d : Disk} {win : Fin 256} {tab : Nat} {off : Option Off}

@[simp] theorem setMine_path : (d.setMine win tab off).path = d.path := rfl
@[simp] theorem setMine_files : (d.setMine win tab off).files = d.files := rfl
@[simp] theorem setMine_old : (d.setMine win tab off).old = d.old := rfl
@[simp] theorem setMine_nextFile : (d.setMine win tab off).nextFile = d.nextFile := rfl
@[simp] theorem setMine_me : (d.setMine win tab off).me = d.me := rfl
@[simp] theorem setMine_tables : (d.setMine win tab off).tables = d.tables := rfl

theorem setMine_tabs (p : Nat) (win' : Fin 256) (tab' : Nat) : (d.setMine win tab off).tabs p win' tab' =
    if p = d.me ∧ win' = win ∧ tab' = tab then off else d.tabs p win' tab' := by
  simp only [setMine, Function.update_apply]
  by_cases own : p = d.me <;> by_cases sameWin : win' = win <;> by_cases sameTab : tab' = tab <;>
    simp [own, sameWin, sameTab]

theorem setMine_mine (win' : Fin 256) (tab' : Nat) : (d.setMine win tab off).mine win' tab' =
    if win' = win ∧ tab' = tab then off else d.mine win' tab' := by
  rw [mine, setMine_tabs]
  simp [mine]

@[simp] theorem setMine_self : (d.setMine win tab off).mine win tab = off := by
  rw [setMine_mine, if_pos ⟨rfl, rfl⟩]

theorem setMine_same (same : d.mine win tab = off) : d.setMine win tab off = d := by
  simp only [setMine, ← same, mine, Function.update_eq_self]

end SetMine

def renewing (d : Disk) (win : Fin 256) (tab file : Nat) (value : File) : Disk :=
  (d.setFile file value).setMine win tab (some ⟨file, value.size, value.size⟩)

theorem renewing_synced {d : Disk} {win : Fin 256} {tab file : Nat} {value : File} (at_ : d.path win tab = some file)
    (header : value.tab.tabSize = value.size) : (d.renewing win tab file value).Synced win tab := by
  have files : (d.renewing win tab file value).files file = value := (setFile_files file).trans (if_pos rfl)
  refine ⟨⟨file, value.size, value.size⟩, setMine_self, at_, ?_⟩
  rw [files]
  exact ⟨rfl, rfl, header⟩

def opening (d : Disk) (win : Fin 256) (tab file : Nat) : Disk :=
  d.renewing win tab file (Tables.opened (d.files file))

variable {keep : Fin 256 → Nat → Prop} {d : Disk} {win : Fin 256} {tab file : Nat}

theorem opened_size (file : File) : (Tables.opened file).size = file.size := by
  unfold Tables.opened
  split <;> rfl

theorem headerAt_run {off : Off} (mine : d.mine win tab = some off) :
    headerAt win tab d = ⟨.ok (off, (d.files off.file).tab), d, 0⟩ := by
  rw [headerAt, bind_ok (get_run d)]
  simp only [mine]
  rfl

theorem initHeader_fresh {off : Off} (mine : d.mine win tab = some off)
    (size : off.tabSize = (d.files off.file).size) :
    initHeader win tab d = ⟨.ok (), d.setFile off.file (Tables.opened (d.files off.file)), 0⟩ := by
  rw [initHeader, bind_ok (headerAt_run mine)]
  by_cases fresh : (d.files off.file).tab.tabSize = 0
  · simp only [when_true fresh, modify_run, store, offAt, mine, size, Tables.opened, if_pos fresh]
  · simp only [when_false fresh, Tables.opened, if_neg fresh, setFile, Function.update_eq_self]

theorem initHeader_used {off : Off} (mine : d.mine win tab = some off)
    (used : (d.files off.file).tab.tabSize ≠ 0) : initHeader win tab d = ⟨.ok (), d, 0⟩ := by
  rw [initHeader, bind_ok (headerAt_run mine)]
  exact when_false used _ _

theorem remap_same {off : Off} (mine : d.mine win tab = some off)
    (same : off.tabSize = (d.files off.file).tab.tabSize) : remap win tab d = ⟨.ok (), d, 0⟩ := by
  rw [remap, bind_ok (headerAt_run mine)]
  exact when_false (fun differ => differ same) _ _

theorem sizeAt_run (at_ : d.path win tab = some file) :
    sizeAt win tab d = ⟨.ok (d.files file).size, d, 0⟩ := by
  rw [sizeAt, bind_ok (get_run d)]
  simp only [at_]
  rfl

theorem mmapAt_run (at_ : d.path win tab = some file) {len : Nat} (some_ : len ≠ 0) :
    mmapAt win tab len d = ⟨.ok (), d.setMine win tab (some ⟨file, len, len % 2^32⟩), 0⟩ := by
  rw [mmapAt, bind_ok (get_run d)]
  simp only [at_]
  rw [bind_ok (check_true some_ _ _), modify_run]

theorem touchLast_run (good : GoodSize (d.files file).size)
    (mine : d.mine win tab = some ⟨file, (d.files file).size, (d.files file).size⟩) :
    touchLast win tab (d.files file).size d = ⟨.ok (), d, 0⟩ := by
  obtain ⟨page, low, high⟩ := good
  have view : d.look (.tab win tab) = some ⟨(d.files file).tab, (d.files file).size⟩ := by
    simp only [look, offAt, mine, Option.map_some, Nat.min_self]
  rw [touchLast, bind_ok (get_run d)]
  simp only [view]
  exact check_true (by omega) _ _

theorem countMmaps_run : ∃ a b c, countMmaps win d = ⟨.ok (), d.counting a b c, 0⟩ := ⟨_, _, _, rfl⟩

theorem countMremaps_run : ∃ a b c, countMremaps win d = ⟨.ok (), d.counting a b c, 0⟩ := ⟨_, _, _, rfl⟩

/-- Remapping a table which has grown since. -/
theorem remap_grown {off : Off} (mine : d.mine win tab = some off)
    (good : GoodSize (d.files off.file).size)
    (header : (d.files off.file).tab.tabSize = (d.files off.file).size)
    (differ : off.tabSize ≠ (d.files off.file).size) : ∃ d', remap win tab d = ⟨.ok (), d', 0⟩ ∧
      (d.setMine win tab
        (some ⟨off.file, (d.files off.file).size, (d.files off.file).size⟩)).Agrees d' := by
  have large := good.low
  obtain ⟨a, b, c, counts⟩ := @countMremaps_run
    (d.setMine win tab (some ⟨off.file, (d.files off.file).size, (d.files off.file).size⟩)) win
  refine ⟨_, ?_, a, b, c, rfl⟩
  rw [remap, bind_ok (headerAt_run mine)]
  simp only [header]
  rw [when_true differ, if_neg (by omega), bind_ok (check_true (by omega) _ _), bind_ok (modify_run _ _),
    bind_ok counts]
  exact touchLast_run good (by rw [counting_mine, setMine_self]; rfl)

/-- Remapping a table which has been replaced since. -/
theorem remap_replaced {off : Off} (mine : d.mine win tab = some off) (at_ : d.path win tab = some file)
    (good : GoodSize (d.files file).size) (replaced : (d.files off.file).tab.tabSize = 1)
    (differ : off.tabSize ≠ 1) : ∃ d', remap win tab d = ⟨.ok (), d', 0⟩ ∧
      (d.setMine win tab (some ⟨file, (d.files file).size, (d.files file).size⟩)).Agrees d' := by
  have large := good.low
  obtain ⟨a, b, c, counts⟩ := @countMmaps_run
    (d.setMine win tab (some ⟨file, (d.files file).size, (d.files file).size⟩)) win
  have mmap := mmapAt_run at_ (show (d.files file).size ≠ 0 by omega)
  rw [good.mod_eq] at mmap
  refine ⟨_, ?_, a, b, c, rfl⟩
  rw [remap, bind_ok (headerAt_run mine)]
  simp only [replaced]
  rw [when_true differ, if_pos trivial, bind_ok (sizeAt_run at_), good.mod_eq, bind_ok mmap, bind_ok counts]
  exact touchLast_run good (by rw [counting_mine, setMine_self]; rfl)

theorem mapFirst_run (at_ : d.path win tab = some file) (good : GoodSize (d.files file).size) :
    ∃ d', mapFirst win tab d = ⟨.ok (), d', 0⟩ ∧
      (d.setMine win tab (some ⟨file, (d.files file).size, (d.files file).size⟩)).Agrees d' := by
  have large := good.low
  have mmap := mmapAt_run at_ (show (d.files file).size ≠ 0 by omega)
  rw [good.mod_eq] at mmap
  refine ⟨_, ?_, Function.update d.countMmap d.me ((d.countMmap d.me + 1) % 2^32),
    Function.update d.tabsMmaps win (d.tabsMmaps win + 1), d.tabsMremaps, rfl⟩
  rw [mapFirst, bind_ok (sizeAt_run at_), bind_ok (check_true good.modPage_eq.symm _ _), bind_ok mmap,
    bind_ok (modify_run _ _), countMmaps, modify_run]
  rfl

theorem not_strays (small : tab < 2048) : ¬ (win.val = 255 ∧ tab = 2048 ∧ d.strays = true) :=
  fun beyond => absurd beyond.2.1 (Nat.ne_of_lt small)

theorem getTabMmap_unmapped (inside : ¬ (win.val = 255 ∧ tab = 2048 ∧ d.strays = true)) (mine : d.mine win tab = none)
    (at_ : d.path win tab = some file) (good : GoodSize (d.files file).size)
    (header : (d.files file).tab.tabSize = 0 ∨ (d.files file).tab.tabSize = (d.files file).size) :
    ∃ d', getTabMmap win tab d = ⟨.ok (), d', 0⟩ ∧ (d.opening win tab file).Agrees d' := by
  rw [getTabMmap, bind_ok (get_run d), bind_ok (check_true inside _ _), mine]
  obtain ⟨d', first, a, b, c, rfl⟩ := mapFirst_run at_ good
  have mapped : ((d.setMine win tab (some ⟨file, (d.files file).size, (d.files file).size⟩)).counting
      a b c).mine win tab = some ⟨file, (d.files file).size, (d.files file).size⟩ := by
    rw [counting_mine, setMine_self]
  have first : when (Option.isNone (none : Option Off) = true) (mapFirst win tab) d = _ := first
  rw [bind_ok first, bind_ok (initHeader_fresh mapped rfl)]
  refine ⟨_, remap_same mapped ?_, a, b, c, ?_⟩
  · rw [setFile_files, if_pos rfl, Tables.opened]
    split
    · rfl
    · rename_i used
      exact (header.resolve_left used).symm
  · rw [opening, renewing, opened_size]
    rfl

/-- What `SHF_GET_TAB_MMAP` leaves: a mapping of the file at the path, at its size. -/
theorem getTabMmap_run (coherent : d.Coherent keep) (at_ : d.path win tab = some file) :
    ∃ d', getTabMmap win tab d = ⟨.ok (), d', 0⟩ ∧ (d.opening win tab file).Agrees d' := by
  have good := (coherent.sizes at_).1
  have inside := @not_strays d win _ (coherent.tab_lt at_)
  cases mine : d.mine win tab with
  | none => exact getTabMmap_unmapped inside mine at_ good (coherent.sizes at_).2
  | some off =>
    obtain ⟨live, there, used⟩ := coherent.off_opened mine
    rw [at_] at there
    cases there
    have header := (coherent.sizes at_).2.resolve_left used
    obtain ⟨goodOff, len⟩ := coherent.off_size mine
    have opened : d.opening win tab file =
        d.setMine win tab (some ⟨file, (d.files file).size, (d.files file).size⟩) := by
      rw [opening, renewing, opened_size, Tables.opened, if_neg used, setFile, Function.update_eq_self]
    have ownUsed : (d.files off.file).tab.tabSize ≠ 0 := by
      rcases coherent.off_live mine with same | replaced | ⟨old, isOld, same⟩
      · rw [at_] at same
        cases same
        exact used
      · omega
      · exact absurd same.symm (coherent.old_mine isOld mine)
    rw [getTabMmap, bind_ok (get_run d), bind_ok (check_true inside _ _), mine, bind_ok (when_false (by simp) _ _), bind_ok (initHeader_used mine ownUsed), opened]
    rcases coherent.off_live mine with same | replaced | ⟨old, isOld, same⟩
    · rw [at_] at same
      cases same
      by_cases same : off.tabSize = (d.files off.file).size
      · have already : off = ⟨off.file, (d.files off.file).size, (d.files off.file).size⟩ := by
          obtain ⟨file, offLen, tabSize⟩ := off
          simp only at len same ⊢
          rw [len, same]
        rw [setMine_same (already ▸ mine)]
        exact ⟨_, remap_same mine (same.trans header.symm), _, _, _, rfl⟩
      · exact remap_grown mine good header same
    · have low := goodOff.low
      exact remap_replaced mine at_ good replaced (by omega)
    · exact absurd same.symm (coherent.old_mine isOld mine)

theorem Coherent.not_replaced (coherent : d.Coherent keep) (at_ : d.path win tab = some file) :
    (d.files file).tab.tabSize ≠ 1 := by
  have low := (coherent.sizes at_).1.low
  rcases (coherent.sizes at_).2 with zero | same <;> omega

theorem Coherent.opened_header (coherent : d.Coherent keep) (at_ : d.path win tab = some file) :
    (Tables.opened (d.files file)).tab.tabSize = (d.files file).size := by
  unfold Tables.opened
  split
  · rfl
  · rename_i used
    exact (coherent.sizes at_).2.resolve_left used

theorem Coherent.renewing {value : File} (coherent : d.Coherent keep) (at_ : d.path win tab = some file)
    (good : GoodSize value.size) (header : value.tab.tabSize = value.size) :
    (d.renewing win tab file value).Coherent fun win' tab' => keep win' tab' ∨ win' = win ∧ tab' = tab := by
  have low := good.low
  have files (other : Nat) : (d.renewing win tab file value).files other =
      if other = file then value else d.files other := setFile_files other
  have tabs (p : Nat) (win' : Fin 256) (tab' : Nat) : (d.renewing win tab file value).tabs p win' tab' =
      if p = d.me ∧ win' = win ∧ tab' = tab then some ⟨file, value.size, value.size⟩
      else d.tabs p win' tab' := setMine_tabs p win' tab'
  have mine (win' : Fin 256) (tab' : Nat) : (d.renewing win tab file value).mine win' tab' =
      if win' = win ∧ tab' = tab then some ⟨file, value.size, value.size⟩ else d.mine win' tab' :=
    setMine_mine win' tab'
  refine ⟨coherent.path_lt, coherent.path_inj, coherent.tab_lt, fun there => ?_, fun there => ?_, fun there => ?_,
    fun there home => ?_, fun there => ?_, fun there => ?_, coherent.old_lt, fun there => ?_,
    coherent.old_gone, fun old there => ?_, fun kept => ?_⟩
  · rw [files]
    split
    · exact ⟨good, .inr header⟩
    · exact coherent.sizes there
  · rw [tabs] at there
    split at there
    · cases there
      exact coherent.path_lt at_
    · exact coherent.off_lt there
  · rw [tabs] at there
    split at there
    · cases there
      exact ⟨good, rfl⟩
    · exact coherent.off_size there
  · rw [tabs] at there
    split at there
    · rename_i here
      cases there
      rw [here.2.1, here.2.2]
      exact coherent.path_inj at_ home
    · exact coherent.off_home there home
  · rw [tabs] at there
    split at there
    · rename_i here
      cases there
      rw [here.2.1, here.2.2]
      exact .inl at_
    · rcases coherent.off_live there with live | replaced | old
      · exact .inl live
      · refine .inr (.inl ?_)
        rw [files, if_neg]
        · exact replaced
        · rintro same
          exact coherent.not_replaced at_ (same ▸ replaced)
      · exact .inr (.inr old)
  · have stays : ∀ other, (d.files other).tab.tabSize ≠ 0 →
        ((d.renewing win tab file value).files other).tab.tabSize ≠ 0 := by
      intro other used
      rw [files]
      split
      · omega
      · exact used
    rw [tabs] at there
    split at there
    · rename_i here
      rw [here.2.1, here.2.2]
      exact ⟨file, at_, by rw [files, if_pos rfl]; omega⟩
    · obtain ⟨live, path, used⟩ := coherent.off_opened there
      exact ⟨live, path, stays live used⟩
  · rw [files, if_neg fun same => coherent.old_gone there (same ▸ at_)]
    exact coherent.old_len there
  · rw [mine] at there
    split at there
    · cases there
      intro same
      change file = _ at same
      exact coherent.old_gone old (same ▸ at_)
    · exact coherent.old_mine old there
  · rename_i win' tab'
    by_cases here : win' = win ∧ tab' = tab
    · obtain ⟨rfl, rfl⟩ := here
      exact renewing_synced at_ header
    · obtain ⟨off, own, path, synced⟩ := coherent.kept (kept.resolve_right here)
      have away : off.file ≠ file := by
        intro same
        obtain ⟨sameWin, sameTab⟩ := coherent.path_inj at_ (same ▸ path)
        exact here ⟨sameWin, sameTab⟩
      refine ⟨off, (mine _ _).trans ((if_neg here).trans own), path, ?_⟩
      rw [files, if_neg away]
      exact synced

theorem renewing_tables {value : File} (coherent : d.Coherent keep) (at_ : d.path win tab = some file) :
    (d.renewing win tab file value).tables = d.tables.set win tab (some value) :=
  tables_setFile_path coherent.sound at_

theorem Coherent.opening (coherent : d.Coherent keep) (at_ : d.path win tab = some file) :
    (d.opening win tab file).Coherent fun win' tab' => keep win' tab' ∨ win' = win ∧ tab' = tab := by
  refine coherent.renewing at_ ?_ ?_
  · rw [opened_size]
    exact (coherent.sizes at_).1
  · rw [opened_size]
    exact coherent.opened_header at_

end Disk

end SharedHashFile.Store
