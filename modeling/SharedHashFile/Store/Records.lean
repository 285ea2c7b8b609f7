import SharedHashFile.Store.Operations

namespace SharedHashFile.Store

open ByteMemory

/-- The bytes a put stores; what it reserves is zero in a part of the table not used before. -/
def PutVal.bytes : PutVal → List UInt8
  | .copy bytes => bytes
  | .reserve len => List.replicate len 0

@[simp] theorem PutVal.bytes_length (val : PutVal) : val.bytes.length = val.len := by
  cases val with
  | copy bytes => rfl
  | reserve len => exact List.length_replicate

def Config.recordLen (cfg : Config) (keyLen valLen : Nat) : Nat :=
  1 + cfg.lenLen + keyLen + cfg.lenLen + valLen

/-- A store with fixed lengths takes keys and values of these lengths only. -/
def Config.Fits (cfg : Config) (key val : List UInt8) : Prop :=
  cfg.lenLen = 0 → key.length = cfg.fixedKeyLen ∧ val.length = cfg.fixedValLen

/-- A deleted record is large enough for the link which is written into it, or gets none. -/
def Config.Linkable (cfg : Config) : Prop :=
  cfg.lenLen = 0 → cfg.fixedKeyLen + cfg.fixedValLen < 4 ∨ 8 ≤ cfg.fixedKeyLen + cfg.fixedValLen

theorem Config.lenLen_variable {cfg : Config} (variable_ : cfg.isFixedKeyValLen = false) : cfg.lenLen = 4 := by
  rw [lenLen, variable_]
  rfl

theorem Config.lenLen_cases (cfg : Config) : cfg.lenLen = 0 ∨ cfg.lenLen = 4 := by
  unfold Config.lenLen
  split
  · exact .inl rfl
  · exact .inr rfl

/-- A record as `shf_find_key_internal` reads it. -/
structure RecordAt (cfg : Config) (data : Memory) (pos : Nat) (key val : List UInt8) : Prop where
  fits : cfg.Fits key val
  lens : cfg.lenLen ≠ 0 → u32At data (pos + 1) = key.length ∧
    u32At data (pos + 1 + cfg.lenLen + key.length) = val.length
  keyBytes : read data (pos + 1 + cfg.lenLen) key.length = key
  valBytes : read data (pos + 1 + cfg.lenLen + key.length + cfg.lenLen) val.length = val

def Apart (pos len pos' len' : Nat) : Prop := pos + len ≤ pos' ∨ pos' + len' ≤ pos

theorem Apart.symm {pos len pos' len' : Nat} (apart : Apart pos len pos' len') : Apart pos' len' pos len :=
  Or.symm apart

section Records

variable {cfg : Config} {data data' : Memory} {pos : Nat} {key val : List UInt8}

theorem RecordAt.congr (record : RecordAt cfg data pos key val)
    (same : ∀ i, pos ≤ i → i < pos + cfg.recordLen key.length val.length → data i = data' i) :
    RecordAt cfg data' pos key val := by
  unfold Config.recordLen at same
  refine ⟨record.fits, fun lens => ?_, ?_, ?_⟩
  · have four := cfg.lenLen_cases.resolve_left lens
    have before := record.lens lens
    rw [four] at same before ⊢
    refine ⟨Eq.trans (u32At_congr fun i low high => ?_) before.1, Eq.trans (u32At_congr fun i low high => ?_) before.2⟩
    · exact (same i (by omega) (by omega)).symm
    · exact (same i (by omega) (by omega)).symm
  · exact Eq.trans (read_congr fun i low high => (same i (by omega) (by omega)).symm) record.keyBytes
  · exact Eq.trans (read_congr fun i low high => (same i (by omega) (by omega)).symm) record.valBytes

theorem RecordAt.update {new : List UInt8} (record : RecordAt cfg data pos key val)
    (length : new.length = val.length) :
    RecordAt cfg (write data (pos + 1 + cfg.lenLen + key.length + cfg.lenLen) new) pos key new := by
  have keep {start len : Nat} (below : start + len ≤ pos + 1 + cfg.lenLen + key.length + cfg.lenLen) :
      read (write data (pos + 1 + cfg.lenLen + key.length + cfg.lenLen) new) start len = read data start len :=
    read_write_apart (.inl below)
  refine ⟨fun fixed => ?_, fun lens => ?_, ?_, read_write_same _ _ _⟩
  · rw [length]
    exact record.fits fixed
  · have four := cfg.lenLen_cases.resolve_left lens
    have before := record.lens lens
    unfold u32At at before ⊢
    rw [keep (by omega), keep (by omega), length]
    exact before
  · rw [keep (by omega)]
    exact record.keyBytes

end Records

/-- `SHF_MEM_AT` of a value which may be `NULL`. -/
def writeValAt (data : Memory) (off : Nat) : PutVal → Memory
  | .copy bytes => write data off bytes
  | .reserve _ => data

/-- The lengths `SHF_TAB_APPEND` writes, if they are not fixed. -/
def writeLens (cfg : Config) (data : Memory) (pos keyLen valLen : Nat) : Memory :=
  if cfg.lenLen = 0 then data
  else write (write data (pos + 1) (leBytes 4 keyLen)) (pos + 1 + cfg.lenLen + keyLen) (leBytes 4 valLen)

/-- The bytes `SHF_TAB_APPEND` writes. -/
def writeRecord (cfg : Config) (data : Memory) (pos : Nat) (key : List UInt8) (val : PutVal) : Memory :=
  let sized := writeLens cfg (write data pos [dataTypeStr32]) pos key.length val.len
  writeValAt (write sized (pos + 1 + cfg.lenLen) key) (pos + 1 + cfg.lenLen + key.length + cfg.lenLen) val

section Writing

variable {cfg : Config} {data : Memory} {pos : Nat} {key : List UInt8} {val : PutVal}

theorem writeValAt_outside {off i : Nat} (outside : i < off ∨ off + val.len ≤ i) :
    writeValAt data off val i = data i := by
  cases val with
  | copy bytes => exact write_outside outside
  | reserve len => rfl

theorem writeLens_outside {keyLen valLen i : Nat} (outside : i ≤ pos ∨
    pos + 1 + cfg.lenLen ≤ i ∧ i < pos + 1 + cfg.lenLen + keyLen ∨
    pos + 1 + cfg.lenLen + keyLen + cfg.lenLen ≤ i) : writeLens cfg data pos keyLen valLen i = data i := by
  unfold writeLens
  split
  · rfl
  · rename_i lens
    have four := cfg.lenLen_cases.resolve_left lens
    rw [four] at outside ⊢
    rw [write_outside (by rw [leBytes_length]; omega), write_outside (by rw [leBytes_length]; omega)]

theorem writeRecord_outside {i : Nat} (outside : i < pos ∨ pos + cfg.recordLen key.length val.len ≤ i) :
    writeRecord cfg data pos key val i = data i := by
  unfold Config.recordLen at outside
  unfold writeRecord
  rw [writeValAt_outside (by omega), write_outside (by omega), writeLens_outside (by omega),
    write_outside (by rw [List.length_singleton]; omega)]

/-- What a put gives is what it stores; a value can be reserved where the table is still zero. -/
def Config.Storable (cfg : Config) (data : Memory) (pos : Nat) (key : List UInt8) (val : PutVal) : Prop :=
  cfg.Fits key val.bytes ∧ ((∃ bytes, val = .copy bytes) ∨
    ∀ i, pos ≤ i → i < pos + cfg.recordLen key.length val.len → data i = 0)

theorem writeLens_lens {keyLen valLen : Nat} (lens : cfg.lenLen ≠ 0) (keySmall : keyLen < 2^32)
    (valSmall : valLen < 2^32) : u32At (writeLens cfg data pos keyLen valLen) (pos + 1) = keyLen ∧
      u32At (writeLens cfg data pos keyLen valLen) (pos + 1 + cfg.lenLen + keyLen) = valLen := by
  have four := cfg.lenLen_cases.resolve_left lens
  unfold writeLens
  rw [if_neg lens]
  refine ⟨?_, u32At_write_same _ _ _ valSmall⟩
  refine Eq.trans (u32At_congr fun i low high => ?_) (u32At_write_same data (pos + 1) keyLen keySmall)
  exact write_outside (by omega)

theorem writeRecord_record (storable : cfg.Storable data pos key val) (keyLen : key.length < 2^32)
    (valLen : val.len < 2^32) : RecordAt cfg (writeRecord cfg data pos key val) pos key val.bytes := by
  obtain ⟨fits, stored⟩ := storable
  refine ⟨fits, fun lens => ?_, ?_, ?_⟩
  · have four := cfg.lenLen_cases.resolve_left lens
    obtain ⟨first, second⟩ := @writeLens_lens cfg (write data pos [dataTypeStr32]) pos _ _ lens keyLen valLen
    rw [PutVal.bytes_length]
    refine ⟨Eq.trans (u32At_congr fun i low high => ?_) first, Eq.trans (u32At_congr fun i low high => ?_) second⟩
    · exact (writeValAt_outside (by omega)).trans (write_outside (by omega))
    · exact (writeValAt_outside (by omega)).trans (write_outside (by omega))
  · let sized := writeLens cfg (write data pos [dataTypeStr32]) pos key.length val.len
    refine Eq.trans (read_congr fun i low high => ?_) (read_write_same sized (pos + 1 + cfg.lenLen) key)
    exact writeValAt_outside (by omega)
  · cases val with
    | copy bytes => exact read_write_same _ _ _
    | reserve len =>
      have zero := stored.resolve_left (by rintro ⟨_, isCopy⟩; cases isCopy)
      rw [PutVal.bytes, List.length_replicate]
      refine read_zero fun i low high => ?_
      have inside : i < pos + (1 + cfg.lenLen + key.length + cfg.lenLen + len) := by omega
      refine Eq.trans ?_ (zero i (by omega) inside)
      refine (write_outside (by omega)).trans ((writeLens_outside (by omega)).trans (write_outside ?_))
      rw [List.length_singleton]
      omega

/-- To reserve a value is to store what is there. -/
theorem writeRecord_reserved {len : Nat} : writeRecord cfg data pos key (.reserve len) =
    writeRecord cfg data pos key (.copy (read data (pos + 1 + cfg.lenLen + key.length + cfg.lenLen) len)) := by
  unfold writeRecord
  rw [PutVal.len, PutVal.len, read_length]
  generalize sized_eq : writeLens cfg (write data pos [dataTypeStr32]) pos key.length len = sized
  have same : read data (pos + 1 + cfg.lenLen + key.length + cfg.lenLen) len =
      read (write sized (pos + 1 + cfg.lenLen) key) (pos + 1 + cfg.lenLen + key.length + cfg.lenLen) len := by
    refine read_congr fun i low high => ?_
    rw [write_outside (by omega), ← sized_eq, writeLens_outside (by omega),
      write_outside (by rw [List.length_singleton]; omega)]
  rw [writeValAt, writeValAt, same, write_read]

end Writing

end SharedHashFile.Store
