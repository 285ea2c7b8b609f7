import SharedHashFile.Program.Program
import SharedHashFile.Store.Table

namespace SharedHashFile.Store

open ByteMemory Program

/-- Why the process ends inside a call. -/
inductive Stop
  /-- `tab overflow; too many keys?`, or the access behind `tabs` before it -/
  | tabOverflow
  /-- `requesting to expand tab by ... but only ... available` -/
  | noSpace
  /-- another assertion of the library or a failing system call -/
  | internal
  /-- an access outside of what is mapped -/
  | wild
  /-- an access to header or rows as if they were data, where the tables are modelled without such -/
  | below
  /-- the bound on the model's loop in `shf_put_key_val` -/
  | fuel
  deriving DecidableEq

/-- The thread local variables. -/
structure Tls where
  ttl : Nat
  uid : Nat
  /-- 64-bit two's complement -/
  valLong : Nat
  /-- offset in the table; `none` is `NULL` -/
  valAddr : Option Nat
  keyAddr : Option Nat
  hash : Hash
  hashKey : List UInt8
  val : List UInt8
  valLen : Nat
  valSize : Nat
  key : List UInt8
  keyLen : Nat
  keySize : Nat
  updCallbackFailsafe : Nat
  updCallbackCopyVal : List UInt8

/-- The settings of a process. -/
structure Config where
  isFixedKeyValLen : Bool
  fixedKeyLen : Nat
  fixedValLen : Nat
  dataNeededFactor : Nat
  dataNeededFactor_lt : dataNeededFactor < 2^32

theorem oneFactor_lt : 1 < 2^32 := by decide

/-- The local `len_len` of the source. -/
def Config.lenLen (cfg : Config) : Nat := if cfg.isFixedKeyValLen then 0 else 4

/-- A pointer to a table: `SHF->tabs[win][tab].tab_mmap`, or the `tab_mmap_old` of a shrink. -/
inductive Ptr
  | tab (win : Fin 256) (tab : Nat)
  | old
  deriving DecidableEq

/-- A mapped table, with the number of its bytes which can be accessed. -/
structure View where
  tab : Tab
  reach : Nat

/-- How the tables are reached: files and one process's mappings of them. -/
structure Mapping (μ : Type) where
  /-- where the data starts which can be accessed: 0 for the code, to which header and rows are bytes like the others -/
  lowest : Nat
  /-- `SHF_GET_TAB_MMAP` -/
  getTabMmap : Fin 256 → Nat → Program Stop μ Unit
  look : μ → Ptr → Option View
  store : μ → Ptr → Tab → μ
  /-- the growth in `SHF_TAB_APPEND`, from `open` to the new `tab_size` in table and mapping -/
  grow : Fin 256 → Nat → Nat → Program Stop μ Unit
  /-- `shf_tab_create` -/
  create : Fin 256 → Nat → Program Stop μ Unit
  /-- the first part of `shf_tab_shrink`: a mapped table is unlinked and stays as the old one, and a
      new one is created and mapped -/
  replace : Fin 256 → Nat → Program Stop μ Unit
  /-- the end of a shrink: the old table's `tab_size` becomes 1, and its mapping goes -/
  release : Program Stop μ Unit

/-- What all processes share besides the tables, and the running process's variables. -/
structure Shared where
  wins : Fin 256 → Win
  /-- what `statvfs` will answer -/
  vfs : Nat → Nat
  vfsAsked : Nat
  tls : Tls

structure State (μ : Type) where
  shared : Shared
  map : μ

abbrev Operation (μ : Type) := Program Stop (State μ)

section Primitives

variable {μ α : Type} (m : Mapping μ)

def onShared (x : Program Stop Shared α) : Operation μ α :=
  zoom State.shared (fun s shared => { s with shared := shared }) x

def onMap (x : Program Stop μ α) : Operation μ α :=
  zoom State.map (fun s map => { s with map := map }) x

theorem onMap_run {x : Program Stop μ α} {t : State μ} {a : α} {T : μ} (run : x t.map = ⟨.ok a, T, 0⟩) :
    onMap x t = ⟨.ok a, { t with map := T }, 0⟩ := by
  simp only [onMap, zoom, run]

theorem onMap_stop {x : Program Stop μ α} {t : State μ} {e : Stop} {T : μ} (run : x t.map = ⟨.error e, T, 0⟩) :
    onMap x t = ⟨.error e, { t with map := T }, 0⟩ := by
  simp only [onMap, zoom, run]

def getTls : Operation μ Tls := onShared fun s => ⟨.ok s.tls, s, 0⟩
def modifyTls (f : Tls → Tls) : Operation μ Unit := onShared (modify fun s => { s with tls := f s.tls })

def getWin (win : Fin 256) : Operation μ Win := onShared fun s => ⟨.ok (s.wins win), s, 0⟩

def modifyWin (win : Fin 256) (f : Win → Win) : Operation μ Unit :=
  onShared (modify fun s => { s with wins := Function.update s.wins win (f (s.wins win)) })

/-- `shf_get_vfs_available`. -/
def vfsAvailable : Operation μ Nat :=
  onShared fun s => ⟨.ok (s.vfs s.vfsAsked % 2^64), { s with vfsAsked := s.vfsAsked + 1 }, 0⟩

def viewAt (ptr : Ptr) : Operation μ View := onMap fun map =>
  match m.look map ptr with
  | some view => if dataOffset ≤ view.reach then ⟨.ok view, map, 0⟩ else ⟨.error .wild, map, 0⟩
  | none => ⟨.error .wild, map, 0⟩

def tabAt (ptr : Ptr) : Operation μ Tab := do
  let view ← viewAt m ptr
  pure view.tab

def modifyTab (ptr : Ptr) (f : Tab → Tab) : Operation μ Unit := do
  let view ← viewAt m ptr
  onMap (modify fun map => m.store map ptr (f view.tab))

/-- Access to `len` bytes of a table. -/
def access (ptr : Ptr) (off len : Nat) : Operation μ Unit := do
  let view ← viewAt m ptr
  check (len = 0 ∨ m.lowest ≤ off) .below
  check (len = 0 ∨ off + len ≤ view.reach) .wild

def readMem (ptr : Ptr) (off len : Nat) : Operation μ (List UInt8) := do
  access m ptr off len
  let tab ← tabAt m ptr
  pure (read tab.bytes off len)

/-- `SHF_MEM_AT`. -/
def writeMem (ptr : Ptr) (off : Nat) (bytes : List UInt8) : Operation μ Unit := do
  access m ptr off bytes.length
  modifyTab m ptr fun tab => tab.writeBytes off bytes

/-- `SHF_U32_AT` as a value. -/
def readU32 (ptr : Ptr) (off : Nat) : Operation μ Nat := do
  let bytes ← readMem m ptr off 4
  pure (leValue bytes)

def writeU32 (ptr : Ptr) (off value : Nat) : Operation μ Unit := writeMem m ptr off (leBytes 4 value)

/-- `SHF_MEM_AT` of a value which may be `NULL`. -/
def writeVal (ptr : Ptr) (off : Nat) : PutVal → Operation μ Unit
  | .copy bytes => writeMem m ptr off bytes
  | .reserve _ => pure ()

def writeU08 (ptr : Ptr) (off : Nat) (value : UInt8) : Operation μ Unit := writeMem m ptr off [value]

end Primitives

/-- All `row` and `ref`, row by row. -/
def allRefs : List (Fin 512 × Fin 16) :=
  (List.finRange 512).flatMap fun row => (List.finRange 16).map fun ref => (row, ref)

section Tables

variable {μ : Type} (m : Mapping μ) (cfg : Config)

/-- The first branch of `SHF_TAB_APPEND`: a deleted slot is used again. -/
def reuseDeleted (win : Fin 256) (tab : Nat) (key : List UInt8) (val : PutVal) (pos : Nat) :
    Operation μ Unit := do
  let nextPos ← readU32 m (.tab win tab) ((pos + 1) % 2^32 + 4)
  modifyTab m (.tab win tab) fun t => { t with tabDataFreePos := nextPos }
  writeU08 m (.tab win tab) pos dataTypeStr32
  writeMem m (.tab win tab) (pos + 1 + cfg.lenLen) key
  writeVal m (.tab win tab) (pos + 1 + cfg.lenLen + key.length + cfg.lenLen) val
  modifyTab m (.tab win tab) fun t =>
    { t with tabDataFree := (t.tabDataFree + 2^32 - (1 + key.length + val.len) % 2^32) % 2^32 }

/-- The growth in `SHF_TAB_APPEND`. -/
def growTab (win : Fin 256) (tab dataNeeded : Nat) : Operation μ Unit := do
  let t ← tabAt m (.tab win tab)
  let newTabSize := modPage ((t.tabSize + dataNeeded * cfg.dataNeededFactor) % 2^64)
  let vfs ← vfsAvailable
  check ((newTabSize + 2^64 - t.tabSize) % 2^64 ≤ vfs) .noSpace
  ask newTabSize
  onMap (m.grow win tab newTabSize)

/-- The record `SHF_TAB_APPEND` writes behind the others. -/
def appendRecord (win : Fin 256) (tab : Nat) (key : List UInt8) (val : PutVal) (dataNeeded : Nat) :
    Operation μ Unit := do
  let t ← tabAt m (.tab win tab)
  check ((t.tabUsed + 1 + cfg.lenLen + key.length) % 2^32 ≤ t.tabSize) .internal
  check ((t.tabUsed + 1 + cfg.lenLen + key.length + cfg.lenLen + val.len) % 2^32 ≤ t.tabSize) .internal
  writeU08 m (.tab win tab) t.tabUsed dataTypeStr32
  when (cfg.lenLen ≠ 0) do
    writeU32 m (.tab win tab) (t.tabUsed + 1) key.length
    writeU32 m (.tab win tab) (t.tabUsed + 1 + cfg.lenLen + key.length) val.len
  writeMem m (.tab win tab) (t.tabUsed + 1 + cfg.lenLen) key
  writeVal m (.tab win tab) (t.tabUsed + 1 + cfg.lenLen + key.length + cfg.lenLen) val
  modifyTab m (.tab win tab) fun t => { t with tabUsed := (t.tabUsed + dataNeeded) % 2^32 }

/-- Where `SHF_TAB_APPEND` puts the record, and all but its last two lines. -/
def reuseOrAppend (win : Fin 256) (tab : Nat) (key : List UInt8) (val : PutVal) (pos dataNeeded : Nat)
    (t : Tab) : Operation μ Nat :=
  if cfg.lenLen = 0 ∧ t.tabDataFreePos ≠ 0 then do
    reuseDeleted m cfg win tab key val t.tabDataFreePos
    pure t.tabDataFreePos
  else do
    ask (t.tabUsed + dataNeeded)
    when ((t.tabSize + 2^32 - t.tabUsed) % 2^32 < dataNeeded) (growTab m cfg win tab dataNeeded)
    appendRecord m cfg win tab key val dataNeeded
    pure pos

/-- `SHF_TAB_APPEND`; the result is `POS` after it. -/
def tabAppend (win : Fin 256) (tab : Nat) (key : List UInt8) (val : PutVal) (pos : Nat) :
    Operation μ Nat := do
  let dataNeeded := 1 + cfg.lenLen + key.length + cfg.lenLen + val.len
  ask dataNeeded
  let t ← tabAt m (.tab win tab)
  let newPos ← reuseOrAppend m cfg win tab key val pos dataNeeded t
  modifyTab m (.tab win tab) fun t =>
    { t with
      tabRefsUsed := (t.tabRefsUsed + 1) % 2^32
      tabDataUsed := (t.tabDataUsed + dataNeeded) % 2^32 }
  pure newPos

/-- `SHF_TAB_REF_MARK_AS_DELETED`. -/
def tabRefMarkAsDeleted (ptr : Ptr) (row : Fin 512) (ref : Fin 16) (keyLen valLen : Nat) :
    Operation μ Unit := do
  let t ← tabAt m ptr
  let oldPos := t.tabDataFreePos
  let pos := (t.row row ref).pos
  let len := (1 + cfg.lenLen + keyLen + cfg.lenLen + valLen) % 2^32
  writeU08 m ptr pos dataTypeDeleted
  when (cfg.lenLen ≠ 0) do
    writeU32 m ptr ((pos + 1) % 2^32) ((keyLen + cfg.lenLen + valLen) % 2^32)
  when (cfg.lenLen = 0 ∧ 4 ≤ (keyLen + valLen) % 2^32) do
    writeU32 m ptr ((pos + 1) % 2^32 + 4) oldPos
    modifyTab m ptr fun t => { t with tabDataFreePos := pos }
  modifyTab m ptr fun t =>
    { (t.setRef row ref { t.row row ref with pos := 0 }) with
      tabDataUsed := (t.tabDataUsed + 2^32 - len) % 2^32
      tabDataFree := (t.tabDataFree + len) % 2^32
      tabRefsUsed := (t.tabRefsUsed + 2^32 - 1) % 2^32 }

/-- Lengths of key and value of the record at `pos`. -/
def recordLens (ptr : Ptr) (pos : Nat) : Operation μ (Nat × Nat) :=
  if cfg.lenLen = 0 then pure (cfg.fixedKeyLen, cfg.fixedValLen) else do
    let keyLen ← readU32 m ptr ((pos + 1) % 2^32)
    let valLen ← readU32 m ptr ((pos + 1 + cfg.lenLen + keyLen) % 2^32)
    pure (keyLen, valLen)

/-- `SHF_TAB_REF_COPY` from the table `from_` to the mapped table. -/
def tabRefCopy (win : Fin 256) (tab : Nat) (from_ : Ptr) (row : Fin 512) (ref : Fin 16) :
    Operation μ Unit := do
  let tNew ← tabAt m (.tab win tab)
  let tOld ← tabAt m from_
  let pos := (tOld.row row ref).pos
  let (keyLen, valLen) ← recordLens m cfg from_ pos
  let key ← readMem m from_ ((pos + 1 + cfg.lenLen) % 2^32) keyLen
  let val ← readMem m from_ ((pos + 1 + cfg.lenLen + keyLen + cfg.lenLen) % 2^32) valLen
  let newPos ← tabAppend m cfg win tab key (.copy val) tNew.tabUsed
  tabRefMarkAsDeleted m cfg from_ row ref keyLen valLen
  modifyTab m (.tab win tab) fun t =>
    { (t.setRef row ref { tOld.row row ref with pos := newPos }) with
      tabRefsUsed := (t.tabRefsUsed + 1) % 2^32 }

/-- `shf_tab_shrink`. -/
def tabShrink (win : Fin 256) (tab : Nat) : Operation μ Unit := do
  modifyWin win fun w => { w with tabsShrunk := w.tabsShrunk + 1 }
  onMap (m.getTabMmap win tab)
  onMap (m.replace win tab)
  allRefs.forM fun (row, ref) => do
    let tOld ← tabAt m .old
    when ((tOld.row row ref).pos ≠ 0) (tabRefCopy m cfg win tab .old row ref)
  onMap m.release

/-- The loop of `shf_tab_part` over the redirects: every second one of the old table moves. -/
def partRedirects (win : Fin 256) (tabOld tabNew : Nat) : List (Fin 2048) → Bool → Operation μ Unit
  | [], _ => pure ()
  | tab2 :: rest, tabSwitch => do
    let w ← getWin win
    check (w.tabs tab2 < tabNew) .internal
    if w.tabs tab2 = tabOld then do
      modifyWin win fun w =>
        { w with tabs := Function.update w.tabs tab2 (if tabSwitch then tabNew else tabOld) }
      partRedirects win tabOld tabNew rest (!tabSwitch)
    else partRedirects win tabOld tabNew rest tabSwitch

/-- The body of the loop of `shf_tab_part` over the refs. -/
def partRef (win : Fin 256) (tabOld tabNew : Nat) (row : Fin 512) (ref : Fin 16) : Operation μ Unit := do
  let tOld ← tabAt m (.tab win tabOld)
  when ((tOld.row row ref).pos ≠ 0) do
    let w ← getWin win
    let tab := w.tabs (tOld.row row ref).tab
    check (tab < 2048) .internal
    check (tab = tabOld ∨ tab = tabNew) .internal
    if tab = tabNew then do
      modifyWin win fun w => { w with tabsPartedNew := w.tabsPartedNew + 1 }
      tabRefCopy m cfg win tabNew (.tab win tabOld) row ref
    else modifyWin win fun w => { w with tabsPartedOld := w.tabsPartedOld + 1 }

/-- `shf_tab_part`. -/
def tabPart (win : Fin 256) (tabOld : Nat) : Operation μ Unit := do
  let w ← getWin win
  let tabNew := w.tabsUsed % 2^16
  onMap (m.create win tabNew)
  onMap (m.getTabMmap win tabNew)
  modifyWin win fun w => { w with tabsParted := w.tabsParted + 1, tabsUsed := (w.tabsUsed + 1) % 2^32 }
  check (tabNew < 2048) .tabOverflow
  partRedirects win tabOld tabNew (List.finRange 2048) false
  allRefs.forM fun (row, ref) => partRef m cfg win tabOld tabNew row ref
  tabShrink m cfg win tabOld

end Tables

end SharedHashFile.Store
