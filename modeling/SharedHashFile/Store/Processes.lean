import SharedHashFile.Store.Calls

namespace SharedHashFile.Store

open Program

/-- `SHF_OFF`, with the file the mapping is of and its true length. -/
structure Off where
  file : Nat
  len : Nat
  tabSize : Nat

/-- The table files, unlinked ones included, and every process's mappings of them. -/
structure Disk where
  files : Nat → File
  nextFile : Nat
  /-- the file at `<win>/<tab>.tab` -/
  path : Fin 256 → Nat → Option Nat
  /-- `SHF->tabs[win][tab]` of each process -/
  tabs : Nat → Fin 256 → Nat → Option Off
  countMmap : Nat → Nat
  tabsMmaps : Fin 256 → Nat
  tabsMremaps : Fin 256 → Nat
  /-- the running process, and the `tab_mmap_old` of its shrink -/
  me : Nat
  old : Option Off
  /-- whether it ends where `shf_mmap` and half of `path`, which follow `tabs`, are taken for a mapping -/
  strays : Bool

namespace Disk

variable (d : Disk)

def setFile (file : Nat) (value : File) : Disk := { d with files := Function.update d.files file value }

def setPath (win : Fin 256) (tab : Nat) (file : Option Nat) : Disk :=
  { d with path := Function.update d.path win (Function.update (d.path win) tab file) }

def mine (win : Fin 256) (tab : Nat) : Option Off := d.tabs d.me win tab

def setMine (win : Fin 256) (tab : Nat) (off : Option Off) : Disk :=
  { d with
    tabs := Function.update d.tabs d.me
      (Function.update (d.tabs d.me) win (Function.update (d.tabs d.me win) tab off)) }

def offAt : Ptr → Option Off
  | .tab win tab => d.mine win tab
  | .old => d.old

def look (ptr : Ptr) : Option View :=
  (d.offAt ptr).map fun off => ⟨(d.files off.file).tab, min off.len (d.files off.file).size⟩

def store (ptr : Ptr) (tab : Tab) : Disk :=
  match d.offAt ptr with
  | some off => d.setFile off.file { d.files off.file with tab := tab }
  | none => d

/-- `open` with `O_CREAT` and `ftruncate`. -/
def truncateAt (win : Fin 256) (tab size : Nat) : Disk :=
  match d.path win tab with
  | some file => d.setFile file ((d.files file).truncate size)
  | none =>
    { (d.setFile d.nextFile ((File.mk 0 emptyTab).truncate size)).setPath win tab (some d.nextFile) with
      nextFile := d.nextFile + 1 }

/-- A new mapping of the file at its path; `len` is not 0. -/
def mmapAt (win : Fin 256) (tab len : Nat) : Program Stop Disk Unit := do
  let d ← get
  match d.path win tab with
  | some file => do
    check (len ≠ 0) .internal
    modify fun d => d.setMine win tab (some ⟨file, len, len % 2^32⟩)
  | none => stop .internal

/-- `stat`. -/
def sizeAt (win : Fin 256) (tab : Nat) : Program Stop Disk Nat := do
  let d ← get
  match d.path win tab with
  | some file => pure (d.files file).size
  | none => stop .internal

def countMmaps (win : Fin 256) : Program Stop Disk Unit :=
  modify fun d => { d with tabsMmaps := Function.update d.tabsMmaps win (d.tabsMmaps win + 1) }

def countMremaps (win : Fin 256) : Program Stop Disk Unit :=
  modify fun d => { d with tabsMremaps := Function.update d.tabsMremaps win (d.tabsMremaps win + 1) }

/-- The first part of `SHF_GET_TAB_MMAP`: a first mapping. -/
def mapFirst (win : Fin 256) (tab : Nat) : Program Stop Disk Unit := do
  let size ← sizeAt win tab
  check (size = modPage size) .internal
  mmapAt win tab size
  modify fun d => { d with countMmap := Function.update d.countMmap d.me ((d.countMmap d.me + 1) % 2^32) }
  countMmaps win

/-- The header of a mapped table, which starts with `tab_size` and `tab_used`. -/
def headerAt (win : Fin 256) (tab : Nat) : Program Stop Disk (Off × Tab) := do
  let d ← get
  match d.mine win tab with
  | some off => pure (off, (d.files off.file).tab)
  | none => stop .wild

/-- The second part of `SHF_GET_TAB_MMAP`: a table used for the first time. -/
def initHeader (win : Fin 256) (tab : Nat) : Program Stop Disk Unit := do
  let (off, t) ← headerAt win tab
  when (t.tabSize = 0)
    (modify fun d => d.store (.tab win tab) { t with tabSize := off.tabSize, tabUsed := dataOffset })

/-- The `debug paranoia` of `SHF_GET_TAB_MMAP`: the last byte of the new mapping is counted up and
    down again, so it has to be there. -/
def touchLast (win : Fin 256) (tab newTabSize : Nat) : Program Stop Disk Unit := do
  let d ← get
  match d.look (.tab win tab) with
  | some view => check ((newTabSize + 2^32 - 1) % 2^32 < view.reach) .wild
  | none => stop .wild

/-- The third part of `SHF_GET_TAB_MMAP`: a table grown or replaced since. -/
def remap (win : Fin 256) (tab : Nat) : Program Stop Disk Unit := do
  let (off, t) ← headerAt win tab
  when (off.tabSize ≠ t.tabSize) do
    if t.tabSize = 1 then do
      let size ← sizeAt win tab
      mmapAt win tab (size % 2^32)
      countMmaps win
      touchLast win tab (size % 2^32)
    else do
      check (t.tabSize ≠ 0) .internal
      modify fun d => d.setMine win tab (some ⟨off.file, t.tabSize, t.tabSize⟩)
      countMremaps win
      touchLast win tab t.tabSize

/-- `SHF_GET_TAB_MMAP`. `SHF->tabs[win][2048]`, looked at just before the assertion that there is no such table, is the
    cell `[win + 1][0]`, and behind all cells in the last window. -/
def getTabMmap (win : Fin 256) (tab : Nat) : Program Stop Disk Unit := do
  let d ← get
  check (¬ (win.val = 255 ∧ tab = 2048 ∧ d.strays = true)) .tabOverflow
  when (d.mine win tab).isNone (mapFirst win tab)
  initHeader win tab
  remap win tab

/-- The growth in `SHF_TAB_APPEND`. -/
def grow (win : Fin 256) (tab newTabSize : Nat) : Program Stop Disk Unit := do
  modify fun d => d.truncateAt win tab newTabSize
  mmapAt win tab newTabSize
  let (_, t) ← headerAt win tab
  modify fun d => d.store (.tab win tab) { t with tabSize := newTabSize % 2^32 }

def create (win : Fin 256) (tab : Nat) : Program Stop Disk Unit :=
  modify fun d => d.truncateAt win tab (modPage dataOffset)

def unlink (win : Fin 256) (tab : Nat) : Program Stop Disk Unit := do
  let d ← get
  check (d.path win tab).isSome .internal
  modify fun d => { (d.setPath win tab none).setMine win tab none with old := d.mine win tab }

/-- The start of `shf_tab_shrink`, after its first `SHF_GET_TAB_MMAP`. -/
def replace (win : Fin 256) (tab : Nat) : Program Stop Disk Unit := do
  unlink win tab
  create win tab
  getTabMmap win tab

def release : Program Stop Disk Unit := do
  let d ← get
  match d.old with
  | some off => modify fun d =>
    { d.setFile off.file { d.files off.file with tab := { (d.files off.file).tab with tabSize := 1 } } with
      old := none
      countMmap := Function.update d.countMmap d.me ((d.countMmap d.me + 2^32 - 1) % 2^32) }
  | none => stop .wild

/-- What `shf_attach` leaves on disk: one table in each window. -/
def initial : Disk where
  files _ := ⟨modPage dataOffset, emptyTab⟩
  nextFile := 256
  path win tab := if tab = 0 then some win.val else none
  tabs _ _ _ := none
  countMmap _ := 1
  tabsMmaps _ := 0
  tabsMremaps _ := 0
  me := 0
  old := none
  strays := true

end Disk

/-- The code's way to its tables. -/
def mapped : Mapping Disk where
  lowest := 0
  getTabMmap := Disk.getTabMmap
  look := Disk.look
  store := Disk.store
  grow := Disk.grow
  create := Disk.create
  replace := Disk.replace
  release := Disk.release

end SharedHashFile.Store
