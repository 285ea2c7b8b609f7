import SharedHashFile.Store.Calls

namespace SharedHashFile.Store

open Program

/-- The tables themselves, without files and mappings: what a table is at any time, and the table a
    shrink is about to replace. -/
@[ext]
structure Tables where
  table : Fin 256 → Nat → Option File
  old : Option File

namespace Tables

variable (T : Tables)

def set (win : Fin 256) (tab : Nat) (file : Option File) : Tables :=
  { T with table := Function.update T.table win (Function.update (T.table win) tab file) }

@[simp] theorem set_table (win win' : Fin 256) (tab tab' : Nat) (file : Option File) :
    (T.set win tab file).table win' tab' =
      if win' = win ∧ tab' = tab then file else T.table win' tab' := by
  simp only [set, Function.update_apply]
  by_cases sameWin : win' = win <;> by_cases sameTab : tab' = tab <;> simp [sameWin, sameTab]

theorem set_table_self (win : Fin 256) (tab : Nat) (file : Option File) : (T.set win tab file).table win tab = file := by
  rw [set_table, if_pos ⟨rfl, rfl⟩]

@[simp] theorem set_old (win : Fin 256) (tab : Nat) (file : Option File) :
    (T.set win tab file).old = T.old := rfl

def fileAt : Ptr → Option File
  | .tab win tab => T.table win tab
  | .old => T.old

def setFile (file : File) : Ptr → Tables
  | .tab win tab => T.set win tab (some file)
  | .old => { T with old := some file }

def look (ptr : Ptr) : Option View := (T.fileAt ptr).map fun file => ⟨file.tab, file.size⟩

def store (ptr : Ptr) (tab : Tab) : Tables :=
  match T.fileAt ptr with
  | some file => T.setFile { file with tab := tab } ptr
  | none => T

def opened (file : File) : File :=
  if file.tab.tabSize = 0 then
    { file with tab := { file.tab with tabSize := file.size, tabUsed := dataOffset } }
  else file

def getTabMmap (win : Fin 256) (tab : Nat) : Program Stop Tables Unit := do
  let T ← get
  match T.table win tab with
  | some file => modify fun T => T.set win tab (some (opened file))
  | none => stop .internal

theorem getTabMmap_run {T : Tables} {win : Fin 256} {tab : Nat} {file : File} (there : T.table win tab = some file) :
    getTabMmap win tab T = ⟨.ok (), T.set win tab (some (opened file)), 0⟩ := by
  rw [getTabMmap, bind_ok (get_run _)]
  simp only [there]
  rfl

def resized (file : Option File) (size : Nat) : File := (file.getD ⟨0, emptyTab⟩).truncate size

def newTable : File := opened (resized none (modPage dataOffset))

def grow (win : Fin 256) (tab newTabSize : Nat) : Program Stop Tables Unit := do
  let T ← get
  let file := resized (T.table win tab) newTabSize
  check (newTabSize ≠ 0) .internal
  modify fun T => T.set win tab (some { file with tab := { file.tab with tabSize := newTabSize % 2^32 } })

def create (win : Fin 256) (tab : Nat) : Program Stop Tables Unit :=
  modify fun T => T.set win tab (some (resized (T.table win tab) (modPage dataOffset)))

theorem create_run (win : Fin 256) (tab : Nat) (T : Tables) : create win tab T =
    ⟨.ok (), T.set win tab (some (resized (T.table win tab) (modPage dataOffset))), 0⟩ := modify_run _ _

def replace (win : Fin 256) (tab : Nat) : Program Stop Tables Unit := do
  let T ← get
  match T.table win tab with
  | some file => modify fun T =>
    { T.set win tab (some (opened (resized none (modPage dataOffset)))) with old := some file }
  | none => stop .internal

def release : Program Stop Tables Unit := do
  let T ← get
  match T.old with
  | some _ => modify fun T => { T with old := none }
  | none => stop .wild

end Tables

def direct : Mapping Tables where
  lowest := dataOffset
  getTabMmap := Tables.getTabMmap
  look := Tables.look
  store := Tables.store
  grow := Tables.grow
  create := Tables.create
  replace := Tables.replace
  release := Tables.release

end SharedHashFile.Store
