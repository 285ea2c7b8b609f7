import SharedHashFile.ByteMemory.ByteMemory

namespace SharedHashFile.Store

open ByteMemory

/-- `SHF_MOD_PAGE` of a number below `2^64`. -/
def modPage (bytes : Nat) : Nat := ((bytes + 2^64 - 1) % 2^64 / 4096 + 1) * 4096 % 2^64

/-- `offsetof(SHF_TAB_MMAP, data)`, which is its size too. -/
def dataOffset : Nat := 65560

def uidNone : Nat := 4294967295

/-- `SHF_DATA_TYPE` of strings with 32-bit lengths; the source leaves the bit `extended` as it comes,
    which is 0 here. -/
def dataTypeStr32 : UInt8 := 62
def dataTypeDeleted : UInt8 := 255

/-- `SHF_REF_MMAP`. -/
structure Ref where
  tab : Fin 2048
  rnd : Nat
  pos : Nat

def Ref.bytes (ref : Ref) : List UInt8 := leBytes 4 (ref.tab.val + ref.rnd * 2^11) ++ leBytes 4 ref.pos

def Ref.ofBytes (bytes : Memory) (off : Nat) : Ref where
  tab := Fin.ofNat 2048 (u32At bytes off)
  rnd := u32At bytes off / 2^11
  pos := u32At bytes (off + 4)

/-- `SHF_TAB_MMAP`; `data` is indexed from the start of the table. -/
structure Tab where
  tabSize : Nat
  tabUsed : Nat
  tabRefsUsed : Nat
  tabDataFreePos : Nat
  tabDataFree : Nat
  tabDataUsed : Nat
  row : Fin 512 → Fin 16 → Ref
  data : Memory

instance neZeroRefs : @NeZero Nat Zero.ofOfNat0 16 := ⟨by decide⟩

/-- A table as the memory it is mapped to, with header and rows. -/
def Tab.bytes (tab : Tab) : Memory := fun i =>
  if i < 24 then
    let header := [tab.tabSize, tab.tabUsed, tab.tabRefsUsed, tab.tabDataFreePos, tab.tabDataFree, tab.tabDataUsed]
    (leBytes 4 (header.getD (i / 4) 0)).getD (i % 4) 0
  else if i < dataOffset then
    (tab.row (Fin.ofNat 512 ((i - 24) / 128)) (Fin.ofNat 16 ((i - 24) / 8))).bytes.getD ((i - 24) % 8) 0
  else tab.data i

def Tab.ofBytes (bytes : Memory) : Tab where
  tabSize := u32At bytes 0
  tabUsed := u32At bytes 4
  tabRefsUsed := u32At bytes 8
  tabDataFreePos := u32At bytes 12
  tabDataFree := u32At bytes 16
  tabDataUsed := u32At bytes 20
  row row ref := Ref.ofBytes bytes (24 + row.val * 128 + ref.val * 8)
  data := bytes

def Tab.writeBytes (tab : Tab) (off : Nat) (bytes : List UInt8) : Tab :=
  if off < dataOffset ∧ bytes.length ≠ 0 then Tab.ofBytes (write tab.bytes off bytes)
  else { tab with data := write tab.data off bytes }

structure File where
  size : Nat
  tab : Tab

def emptyTab : Tab := ⟨0, 0, 0, 0, 0, 0, fun _ _ => ⟨0, 0, 0⟩, fun _ => 0⟩

/-- `ftruncate`. -/
def File.truncate (file : File) (size : Nat) : File where
  size := size
  tab := { file.tab with data := fun i => if i < size then file.tab.data i else 0 }

def Tab.setRef (tab : Tab) (row : Fin 512) (ref : Fin 16) (value : Ref) : Tab :=
  { tab with row := Function.update tab.row row (Function.update (tab.row row) ref value) }

/-- `SHF_WIN_MMAP` without its lock and the two counters kept with the mappings. -/
structure Win where
  tabs : Fin 2048 → Nat
  tabsUsed : Nat
  tabsShrunk : Nat
  tabsParted : Nat
  tabsPartedOld : Nat
  tabsPartedNew : Nat
  keylenMisses : Nat
  memcmpMisses : Nat

/-- `SHF_UID`, and with any `ref` the place a hash leads to. -/
structure Slot where
  win : Fin 256
  tab : Fin 2048
  row : Fin 512
  ref : Fin 16
  deriving DecidableEq

/-- `as_u32` of a `SHF_UID`. -/
def Slot.uid (slot : Slot) : Nat :=
  slot.win.val + slot.tab.val * 2^8 + slot.row.val * 2^19 + slot.ref.val * 2^28

/-- `as_part` of a `SHF_UID`. -/
def uidSlot (uid : Nat) : Slot where
  win := Fin.ofNat 256 uid
  tab := Fin.ofNat 2048 (uid / 2^8)
  row := Fin.ofNat 512 (uid / 2^19)
  ref := Fin.ofNat 16 (uid / 2^28)

abbrev Hash := BitVec 128

def Hash.u16 (hash : Hash) (i : Nat) : Nat := hash.toNat / 2^(16 * i) % 2^16
def Hash.u32 (hash : Hash) (i : Nat) : Nat := hash.toNat / 2^(32 * i) % 2^32

def Hash.slot (hash : Hash) (ref : Fin 16) : Slot where
  win := Fin.ofNat 256 (hash.u16 0)
  tab := Fin.ofNat 2048 (hash.u16 1)
  row := Fin.ofNat 512 (hash.u16 2)
  ref := ref

def Hash.rnd (hash : Hash) : Nat := hash.u32 2 % 2^21

/-- What `shf_put_key_val` is to store; `reserve` is `NULL` with a length. -/
inductive PutVal
  | copy (bytes : List UInt8)
  | reserve (len : Nat)

def PutVal.len : PutVal → Nat
  | .copy bytes => bytes.length
  | .reserve len => len

/-- Behind header and rows a table is its data. -/
theorem Tab.read_bytes {tab : Tab} {off len : Nat} (inside : len = 0 ∨ dataOffset ≤ off) :
    read tab.bytes off len = read tab.data off len := by
  rcases inside with rfl | low
  · rfl
  · unfold dataOffset at low
    refine read_congr fun i above _ => ?_
    rw [Tab.bytes, if_neg (by omega), if_neg (by unfold dataOffset; omega)]

theorem Tab.writeBytes_data {tab : Tab} {off : Nat} {bytes : List UInt8} (inside : bytes.length = 0 ∨ dataOffset ≤ off) :
    tab.writeBytes off bytes = { tab with data := write tab.data off bytes } := by
  rw [Tab.writeBytes, if_neg]
  omega

theorem uidSlot_uid (slot : Slot) : uidSlot slot.uid = slot := by
  obtain ⟨win, tab, row, ref⟩ := slot
  have := win.isLt
  have := tab.isLt
  have := row.isLt
  have := ref.isLt
  simp only [uidSlot, Slot.uid, Slot.mk.injEq, Fin.ext_iff, Fin.val_ofNat]
  omega

theorem Slot.uid_injective {slot other : Slot} (same : slot.uid = other.uid) : slot = other := by
  rw [← uidSlot_uid slot, same, uidSlot_uid]

end SharedHashFile.Store
