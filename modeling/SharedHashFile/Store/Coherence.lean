import SharedHashFile.Store.Processes
import SharedHashFile.Store.Tables

namespace SharedHashFile.Store

open Program

/-- Sizes a table file has within the 32-bit limits. -/
structure GoodSize (size : Nat) : Prop where
  page : size % 4096 = 0
  low : 69632 ≤ size
  high : size < 2^32

def sizeLimit : Nat := 2^32

theorem GoodSize.modPage_eq {size : Nat} (good : GoodSize size) : modPage size = size := by
  obtain ⟨page, low, high⟩ := good
  unfold modPage
  omega

theorem GoodSize.mod_eq {size : Nat} (good : GoodSize size) : size % 2^32 = size :=
  Nat.mod_eq_of_lt good.high

theorem newTab_good : GoodSize (modPage dataOffset) := ⟨by decide, by decide, by decide⟩

theorem le_modPage {bytes : Nat} (some_ : 0 < bytes) (small : bytes + 4096 < 2^64) : bytes ≤ modPage bytes := by
  unfold modPage
  omega

theorem grown_whole {tabSize dataNeeded factor : Nat} (good : GoodSize tabSize) (needed : dataNeeded < 2^32)
    (factor_lt : factor < 2^32) : (tabSize + dataNeeded * factor) % 2^64 = tabSize + dataNeeded * factor := by
  have high := good.high
  have product : dataNeeded * factor ≤ (2^32 - 1) * (2^32 - 1) :=
    Nat.mul_le_mul (by omega) (by omega)
  exact Nat.mod_eq_of_lt (by omega)

/-- A growth which is not too large has a size a table file can have. -/
theorem grown_good {tabSize dataNeeded factor : Nat} (good : GoodSize tabSize) (needed : dataNeeded < 2^32)
    (factor_lt : factor < 2^32)
    (below : modPage ((tabSize + dataNeeded * factor) % 2^64) < sizeLimit) :
    GoodSize (modPage ((tabSize + dataNeeded * factor) % 2^64)) ∧
      tabSize + dataNeeded * factor ≤ modPage ((tabSize + dataNeeded * factor) % 2^64) := by
  have product : dataNeeded * factor ≤ (2^32 - 1) * (2^32 - 1) :=
    Nat.mul_le_mul (by omega) (by omega)
  rw [grown_whole good needed factor_lt] at below ⊢
  obtain ⟨_, low, high⟩ := good
  have enough := @le_modPage (tabSize + dataNeeded * factor) (by omega) (by omega)
  refine ⟨⟨?_, by omega, below⟩, enough⟩
  unfold modPage
  omega

theorem growth_le {tabSize dataNeeded factor : Nat} (good : GoodSize tabSize) (needed : dataNeeded < 2^32)
    (factor_lt : factor < 2^32) :
    (modPage ((tabSize + dataNeeded * factor) % 2^64) + 2^64 - tabSize) % 2^64 ≤ 2^33 * factor := by
  have same := good.modPage_eq
  have product : dataNeeded * factor ≤ (2^32 - 1) * factor := Nat.mul_le_mul_right _ (by omega)
  rw [grown_whole good needed factor_lt]
  obtain ⟨_, low, high⟩ := good
  rcases Nat.eq_zero_or_pos factor with rfl | some_
  · rw [Nat.mul_zero, Nat.add_zero, same]
    omega
  · unfold modPage
    omega

namespace Disk

/-- The tables an onlooker finds at the paths. -/
def tables (d : Disk) : Tables where
  table win tab := (d.path win tab).map d.files
  old := d.old.map fun off => d.files off.file

def Synced (d : Disk) (win : Fin 256) (tab : Nat) : Prop :=
  ∃ off, d.mine win tab = some off ∧ d.path win tab = some off.file ∧
    off.len = (d.files off.file).size ∧ off.tabSize = (d.files off.file).size ∧
    (d.files off.file).tab.tabSize = (d.files off.file).size

def Current (d : Disk) (win : Fin 256) (tab : Nat) : Prop :=
  ∃ off, d.mine win tab = some off ∧ d.path win tab = some off.file

/-- Whatever the sizes are, all mappings of all processes are of the files at the paths, or of files
    marked as replaced. `keep` are the tables which the running process has looked at. -/
structure Sound (keep : Fin 256 → Nat → Prop) (d : Disk) : Prop where
  path_lt : ∀ {win tab file}, d.path win tab = some file → file < d.nextFile
  path_inj : ∀ {win tab win' tab' file}, d.path win tab = some file → d.path win' tab' = some file →
    win' = win ∧ tab' = tab
  pages : ∀ {win tab file}, d.path win tab = some file → (d.files file).size % 4096 = 0
  off_lt : ∀ {p win tab off}, d.tabs p win tab = some off → off.file < d.nextFile
  off_size : ∀ {p win tab off}, d.tabs p win tab = some off → off.tabSize ≠ 1
  off_home : ∀ {p win tab off win' tab'}, d.tabs p win tab = some off → d.path win' tab' = some off.file →
    win' = win ∧ tab' = tab
  off_live : ∀ {p win tab off}, d.tabs p win tab = some off → d.path win tab = some off.file ∨
    (d.files off.file).tab.tabSize = 1 ∨ ∃ old, d.old = some old ∧ old.file = off.file
  old_lt : ∀ {old}, d.old = some old → old.file < d.nextFile
  old_gone : ∀ {old win tab}, d.old = some old → d.path win tab ≠ some old.file
  old_mine : ∀ {old win tab off}, d.old = some old → d.mine win tab = some off → off.file ≠ old.file
  kept : ∀ {win tab}, keep win tab → d.Current win tab

/-- The same within the 32-bit limits, where the sizes are right too. -/
structure Coherent (keep : Fin 256 → Nat → Prop) (d : Disk) : Prop where
  path_lt : ∀ {win tab file}, d.path win tab = some file → file < d.nextFile
  path_inj : ∀ {win tab win' tab' file}, d.path win tab = some file → d.path win' tab' = some file →
    win' = win ∧ tab' = tab
  tab_lt : ∀ {win tab file}, d.path win tab = some file → tab < 2048
  sizes : ∀ {win tab file}, d.path win tab = some file → GoodSize (d.files file).size ∧
    ((d.files file).tab.tabSize = 0 ∨ (d.files file).tab.tabSize = (d.files file).size)
  off_lt : ∀ {p win tab off}, d.tabs p win tab = some off → off.file < d.nextFile
  off_size : ∀ {p win tab off}, d.tabs p win tab = some off → GoodSize off.tabSize ∧ off.len = off.tabSize
  off_home : ∀ {p win tab off win' tab'}, d.tabs p win tab = some off → d.path win' tab' = some off.file →
    win' = win ∧ tab' = tab
  off_live : ∀ {p win tab off}, d.tabs p win tab = some off → d.path win tab = some off.file ∨
    (d.files off.file).tab.tabSize = 1 ∨ ∃ old, d.old = some old ∧ old.file = off.file
  off_opened : ∀ {p win tab off}, d.tabs p win tab = some off →
    ∃ file, d.path win tab = some file ∧ (d.files file).tab.tabSize ≠ 0
  old_lt : ∀ {old}, d.old = some old → old.file < d.nextFile
  old_len : ∀ {old}, d.old = some old → old.len = (d.files old.file).size
  old_gone : ∀ {old win tab}, d.old = some old → d.path win tab ≠ some old.file
  old_mine : ∀ {old win tab off}, d.old = some old → d.mine win tab = some off → off.file ≠ old.file
  kept : ∀ {win tab}, keep win tab → d.Synced win tab

theorem Coherent.sound {keep : Fin 256 → Nat → Prop} {d : Disk} (coherent : d.Coherent keep) : d.Sound keep := by
  refine ⟨coherent.path_lt, coherent.path_inj, fun there => (coherent.sizes there).1.page, coherent.off_lt,
    fun there => ?_, coherent.off_home, coherent.off_live, coherent.old_lt, coherent.old_gone, coherent.old_mine,
    fun kept => ?_⟩
  · have low := (coherent.off_size there).1.low
    omega
  · rcases coherent.kept kept with ⟨off, own, path, _⟩
    exact ⟨off, own, path⟩

section Writes

variable {keep : Fin 256 → Nat → Prop} {d : Disk} {win : Fin 256} {tab file : Nat} {value : File} {off : Off}

@[simp] theorem setFile_path : (d.setFile file value).path = d.path := rfl
@[simp] theorem setFile_tabs : (d.setFile file value).tabs = d.tabs := rfl
@[simp] theorem setFile_old : (d.setFile file value).old = d.old := rfl
@[simp] theorem setFile_nextFile : (d.setFile file value).nextFile = d.nextFile := rfl
@[simp] theorem setFile_mine : (d.setFile file value).mine = d.mine := rfl

theorem setFile_files (other : Nat) : (d.setFile file value).files other =
    if other = file then value else d.files other := Function.update_apply _ _ _ _

theorem Coherent.setFile (coherent : d.Coherent keep) (size : value.size = (d.files file).size)
    (header : value.tab.tabSize = (d.files file).tab.tabSize) : (d.setFile file value).Coherent keep := by
  have sizes (other : Nat) : ((d.setFile file value).files other).size = (d.files other).size := by
    rw [setFile_files]
    split
    · rename_i same
      rw [size, same]
    · rfl
  have headers (other : Nat) :
      ((d.setFile file value).files other).tab.tabSize = (d.files other).tab.tabSize := by
    rw [setFile_files]
    split
    · rename_i same
      rw [header, same]
    · rfl
  refine ⟨coherent.path_lt, coherent.path_inj, coherent.tab_lt, fun at_ => ?_, coherent.off_lt, coherent.off_size,
    coherent.off_home, fun at_ => ?_, fun at_ => ?_, coherent.old_lt, fun at_ => ?_, coherent.old_gone,
    coherent.old_mine, fun kept => ?_⟩
  · rw [sizes, headers]
    exact coherent.sizes at_
  · rw [headers]
    exact coherent.off_live at_
  · obtain ⟨live, there, opened⟩ := coherent.off_opened at_
    exact ⟨live, there, by rw [headers]; exact opened⟩
  · rw [sizes]
    exact coherent.old_len at_
  · unfold Synced
    simp only [sizes, headers]
    exact coherent.kept kept

theorem tables_setFile_path (sound : d.Sound keep) (at_ : d.path win tab = some file) :
    (d.setFile file value).tables = d.tables.set win tab (some value) := by
  refine Tables.ext (funext fun win' => funext fun tab' => ?_) ?_
  · rw [Tables.set_table]
    change (d.path win' tab').map (d.setFile file value).files = _
    split
    · rename_i here
      rw [here.1, here.2, at_, Option.map_some, setFile_files, if_pos rfl]
    · rename_i elsewhere
      change _ = (d.path win' tab').map d.files
      cases found : d.path win' tab' with
      | none => rfl
      | some other =>
        have away : other ≠ file := fun same => elsewhere (sound.path_inj at_ (same ▸ found))
        rw [Option.map_some, Option.map_some, setFile_files, if_neg away]
  · change (d.old.map fun off => (d.setFile file value).files off.file) = d.old.map fun off => d.files off.file
    cases found : d.old with
    | none => rfl
    | some old =>
      have away : old.file ≠ file := fun same => sound.old_gone found (same ▸ at_)
      rw [Option.map_some, Option.map_some, setFile_files, if_neg away]

theorem tables_setFile_old (sound : d.Sound keep) (at_ : d.old = some off) :
    (d.setFile off.file value).tables = { d.tables with old := some value } := by
  unfold tables
  rw [setFile_old, at_]
  simp only [setFile_path, Option.map_some, setFile_files, if_true]
  congr 1
  funext win tab
  cases found : d.path win tab with
  | none => rfl
  | some other =>
    have away : other ≠ off.file := fun same => sound.old_gone at_ (same ▸ found)
    simp only [Option.map_some, setFile_files, if_neg away]

end Writes

end Disk

end SharedHashFile.Store
