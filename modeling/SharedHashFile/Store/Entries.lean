import SharedHashFile.Store.Runs

namespace SharedHashFile.Store

open ByteMemory Program

/-- Key and value of the record at `pos`. -/
def recordItem (cfg : Config) (data : Memory) (pos : Nat) : Item :=
  let keyLen := if cfg.lenLen = 0 then cfg.fixedKeyLen else u32At data (pos + 1)
  let valLen := if cfg.lenLen = 0 then cfg.fixedValLen else u32At data (pos + 1 + cfg.lenLen + keyLen)
  ⟨read data (pos + 1 + cfg.lenLen) keyLen, read data (pos + 1 + cfg.lenLen + keyLen + cfg.lenLen) valLen⟩

def Tab.itemAt (cfg : Config) (t : Tab) (tab : Fin 2048) (row : Fin 512) (ref : Fin 16) : Option Item :=
  if (t.row row ref).pos ≠ 0 ∧ (t.row row ref).tab = tab then some (recordItem cfg t.data (t.row row ref).pos) else none

def State.fileOf (s : State Disk) (slot : Slot) : Option File :=
  (s.map.path slot.win ((s.shared.wins slot.win).tabs slot.tab)).map s.map.files

/-- The entries in the table files, each at its slot. -/
def State.items (cfg : Config) (s : State Disk) : Items := fun slot =>
  (s.fileOf slot).bind fun file => file.tab.itemAt cfg slot.tab slot.row slot.ref

/-- No entry of the key's triple has the key. -/
def Items.Missing (items : Items) (hash : Hash) (key : List UInt8) : Prop :=
  ∀ ref : Fin 16, ∀ item ∈ items (hash.slot ref), item.key ≠ key

instance (items : Items) (hash : Hash) (key : List UInt8) : Decidable (items.Missing hash key) :=
  inferInstanceAs (Decidable (∀ ref : Fin 16, ∀ item ∈ items (hash.slot ref), item.key ≠ key))

section Entries

variable {cfg : Config} {file : File} {c : Contents} {free : List Nat} {win : Fin 256} {tabs : Fin 2048 → Nat}
  {b : Bindings} {slot : Slot}

theorem RecordAt.item {data : Memory} {pos : Nat} {key val : List UInt8} (record : RecordAt cfg data pos key val) :
    recordItem cfg data pos = ⟨key, val⟩ := by
  unfold recordItem
  by_cases fixed : cfg.lenLen = 0
  · rcases record.fits fixed with ⟨keyLen, valLen⟩
    simp only [if_pos fixed, ← keyLen, ← valLen, record.keyBytes, record.valBytes]
  · rcases record.lens fixed with ⟨keyLen, valLen⟩
    simp only [if_neg fixed, keyLen, valLen, record.keyBytes, record.valBytes]

/-- A table's entries are what is bound at its slots. -/
theorem TableOk.itemAt (ok : TableOk cfg file c free) (shows_ : Shows c slot.win (tabs slot.tab) tabs b) :
    file.tab.itemAt cfg slot.tab slot.row slot.ref = b.items slot := by
  unfold Tab.itemAt Bindings.items
  cases bound : b slot with
  | some binding =>
    have there : c slot.row slot.ref = some ⟨slot.tab, binding.rnd, binding.key, binding.val⟩ :=
      (shows_.binding rfl).mp bound
    rcases ok.live there with ⟨tab_eq, _, stored⟩
    rw [if_pos ⟨ok.occupied there, tab_eq⟩, stored.record.item]
    rfl
  | none =>
    rw [if_neg]
    · rfl
    · rintro ⟨used, tab_eq⟩
      rcases Option.ne_none_iff_exists'.mp (mt ok.pos_zero_iff.mpr used) with ⟨e, there⟩
      rcases (shows_ _ _ e).mp there with ⟨_, bound'⟩
      rw [← (ok.live there).1, tab_eq, bound] at bound'
      cases bound'

theorem InUse.fileOf {s : State Disk} (inUse : InUse cfg s b) (slot : Slot) : ∃ file c free,
    s.fileOf slot = some file ∧ TableOk cfg (Tables.opened file) c free ∧
      Shows c slot.win ((s.shared.wins slot.win).tabs slot.tab) (s.shared.wins slot.win).tabs b := by
  rcases inUse with ⟨t, ⟨L, tracks, _⟩, ok⟩
  rw [tracks.shared]
  rcases ok.tables slot.win _ (ok.tabs_lt slot.win slot.tab) with ⟨file, c, free, there, tableOk, shows_⟩
  refine ⟨file, c, free, ?_, tableOk, shows_⟩
  rw [← tracks.tables] at there
  unfold State.fileOf
  rw [tracks.shared]
  exact there

theorem InUse.items {s : State Disk} (inUse : InUse cfg s b) : s.items cfg = b.items := by
  funext slot
  rcases inUse.fileOf slot with ⟨file, c, free, there, tableOk, shows_⟩
  unfold State.items
  rw [there, Option.bind_some, ← tableOk.itemAt shows_]
  unfold Tables.opened
  split <;> rfl

theorem initial_missing (cfg : Config) (vfs : Nat → Nat) (tls : Tls) (hash : Hash) (key : List UInt8) :
    ((State.initial vfs tls).items cfg).Missing hash key := by
  intro ref item there
  rw [(initial_inUse cfg vfs tls).items] at there
  cases there

theorem Client.inUse {hashOf : List UInt8 → Hash} {s : State Disk} (client : Client cfg hashOf s b) :
    InUse cfg s b := by
  rcases client with ⟨t, settled, serves⟩
  exact ⟨t, settled, serves.ok⟩

end Entries

end SharedHashFile.Store
