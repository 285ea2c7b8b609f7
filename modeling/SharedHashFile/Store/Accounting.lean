import Mathlib.Algebra.BigOperators.Group.Finset.Basic
import Mathlib.Algebra.Order.BigOperators.Group.Finset
import SharedHashFile.Store.ReaderDiscipline

namespace SharedHashFile.Store

open ByteMemory Program LinkedList

def entryBytes (cfg : Config) : Option Entry → Nat
  | some entry => entry.len cfg
  | none => 0

def Contents.bytes (cfg : Config) (c : Contents) : Nat := ∑ row, ∑ ref, entryBytes cfg (c row ref)

/-- Records are all of one length, and so are the deleted ones, each of which can hold a link. -/
def Config.Slotted (cfg : Config) : Prop := cfg.lenLen = 0 ∧ 8 ≤ cfg.fixedKeyLen + cfg.fixedValLen

/-- A table in use whose counters of bytes are right. -/
structure Counted (cfg : Config) (file : File) (c : Contents) (free : List Nat) : Prop where
  ok : TableOk cfg file c free
  dataUsed : file.tab.tabDataUsed = c.bytes cfg
  used : file.tab.tabUsed = dataOffset + file.tab.tabDataUsed + file.tab.tabDataFree
  dataFree : cfg.Slotted → file.tab.tabDataFree = free.length * cfg.fixedLen
  live_aligned : cfg.Slotted → ∀ {row ref e}, c row ref = some e → cfg.fixedLen ∣ (file.tab.row row ref).pos - dataOffset
  free_aligned : cfg.Slotted → ∀ {p}, p ∈ free → cfg.fixedLen ∣ p - dataOffset

section Sums

variable {cfg : Config} {c : Contents} {row : Fin 512} {ref : Fin 16}

theorem sum_update {Index : Type} [Fintype Index] [DecidableEq Index] {Value : Type} (f : Index → Value) (g : Value → Nat)
    (i : Index) (value : Value) : ∑ j, g (Function.update f i value j) + g (f i) = ∑ j, g (f j) + g value := by
  have before := Finset.add_sum_erase Finset.univ (fun j => g (f j)) (Finset.mem_univ i)
  have after := Finset.add_sum_erase Finset.univ (fun j => g (Function.update f i value j)) (Finset.mem_univ i)
  have others : ∑ j ∈ Finset.univ.erase i, g (Function.update f i value j) = ∑ j ∈ Finset.univ.erase i, g (f j) :=
    Finset.sum_congr rfl fun j member => by rw [Function.update_of_ne (Finset.ne_of_mem_erase member)]
  simp only [Function.update_self] at after
  omega

theorem Contents.bytes_set (entry : Option Entry) :
    (c.set row ref entry).bytes cfg + entryBytes cfg (c row ref) = c.bytes cfg + entryBytes cfg entry := by
  have inner := sum_update (c row) (entryBytes cfg) ref entry
  have outer := sum_update c (fun entries => ∑ ref, entryBytes cfg (entries ref)) row (Function.update (c row) ref entry)
  unfold bytes set
  omega

theorem Contents.le_bytes {entry : Entry} (there : c row ref = some entry) : entry.len cfg ≤ c.bytes cfg := by
  have inner : entryBytes cfg (c row ref) ≤ ∑ ref, entryBytes cfg (c row ref) :=
    Finset.single_le_sum (f := fun ref => entryBytes cfg (c row ref)) (fun _ _ => Nat.zero_le _) (Finset.mem_univ ref)
  have outer : ∑ ref, entryBytes cfg (c row ref) ≤ c.bytes cfg :=
    Finset.single_le_sum (f := fun row => ∑ ref, entryBytes cfg (c row ref)) (fun _ _ => Nat.zero_le _) (Finset.mem_univ row)
  rw [there] at inner
  exact Nat.le_trans inner outer

theorem Contents.bytes_none : Contents.bytes cfg (fun _ _ => none) = 0 := by
  simp [bytes, entryBytes]

end Sums

section Tables

variable {cfg : Config} {file file' : File} {c : Contents} {free free' : List Nat} {row : Fin 512} {ref : Fin 16}
  {entry : Entry} {pos : Nat}

theorem Counted.small (counted : Counted cfg file c free) : file.tab.tabUsed < 2^32 :=
  lt_of_le_of_lt counted.ok.used_high counted.ok.size.high

theorem newTable_counted : Counted cfg Tables.newTable (fun _ _ => none) [] :=
  ⟨newTable_ok, Contents.bytes_none.symm, rfl, fun _ => (Nat.zero_mul _).symm, nofun, nofun⟩

def Config.packedSize (cfg : Config) : Nat → Nat
  | 0 => modPage dataOffset
  | n + 1 => cfg.grownFor (packedSize cfg n) (dataOffset + n * cfg.fixedLen) cfg.fixedLen

/-- A table whose records were appended one after the other, and none deleted. -/
structure Packed (cfg : Config) (file : File) (c : Contents) : Prop where
  counted : Counted cfg file c []
  dataFree : file.tab.tabDataFree = 0
  size : cfg.lenLen = 0 → ∃ n, c.bytes cfg = n * cfg.fixedLen ∧ file.size = cfg.packedSize n

theorem newTable_packed : Packed cfg Tables.newTable (fun _ _ => none) :=
  ⟨newTable_counted, rfl, fun _ => ⟨0, by rw [Contents.bytes_none, Nat.zero_mul], rfl⟩⟩

theorem Packed.used (packed : Packed cfg file c) : file.tab.tabUsed = dataOffset + c.bytes cfg := by
  rw [packed.counted.used, packed.counted.dataUsed, packed.dataFree, add_zero]

theorem Contents.bytes_aligned (slotted : cfg.Slotted) (ok : TableOk cfg file c free) : cfg.fixedLen ∣ c.bytes cfg := by
  apply Finset.dvd_sum
  intro row _
  apply Finset.dvd_sum
  intro ref _
  cases there : c row ref with
  | none => exact dvd_zero _
  | some entry =>
    change cfg.fixedLen ∣ entry.len cfg
    rw [show entry.len cfg = cfg.fixedLen from (ok.live there).2.2.record.fits.recordLen slotted.1]

theorem Counted.used_aligned (slotted : cfg.Slotted) (counted : Counted cfg file c free) :
    cfg.fixedLen ∣ file.tab.tabUsed - dataOffset := by
  have whole : file.tab.tabUsed - dataOffset = c.bytes cfg + free.length * cfg.fixedLen := by
    rw [counted.used, counted.dataUsed, counted.dataFree slotted]
    omega
  rw [whole]
  exact dvd_add (Contents.bytes_aligned slotted counted.ok) (dvd_mul_left _ _)

theorem Counted.refsUsed {refsUsed : Nat} (counted : Counted cfg file c free) :
    Counted cfg { file with tab := { file.tab with tabRefsUsed := refsUsed } } c free :=
  ⟨counted.ok.counting, counted.dataUsed, counted.used, counted.dataFree, counted.live_aligned, counted.free_aligned⟩

theorem TableOk.slotted {p : Nat} (ok : TableOk cfg file c (p :: free)) : cfg.Slotted :=
  ⟨(ok.spare List.mem_cons_self).1, (ok.spare List.mem_cons_self).2.1⟩

theorem Counted.placing {key val : List UInt8} {tab : Fin 2048} {rnd : Nat} (counted : Counted cfg file c free)
    (ok : TableOk cfg file' c free') (pending : Pending cfg file' c free' pos key val)
    (takes : Takes cfg (cfg.recordLen key.length val.length) file free file' free' pos)
    (dataUsed : file'.tab.tabDataUsed = (file.tab.tabDataUsed + cfg.recordLen key.length val.length) % 2^32)
    (none_ : c row ref = none) :
    Counted cfg { file' with tab := file'.tab.setRef row ref ⟨tab, rnd, pos⟩ }
      (c.set row ref (some ⟨tab, rnd, key, val⟩)) free' := by
  have small := lt_of_le_of_lt ok.used_high ok.size.high
  have used := counted.used
  have bytes := @Contents.bytes_set cfg c row ref (some ⟨tab, rnd, key, val⟩)
  rw [none_, ← counted.dataUsed] at bytes
  simp only [entryBytes, Entry.len, add_zero] at bytes
  have rows (row' : Fin 512) (ref' : Fin 16) (away : ¬(row' = row ∧ ref' = ref)) (same : file'.tab.row = file.tab.row) :
      ((file'.tab.setRef row ref ⟨tab, rnd, pos⟩).row row' ref').pos = (file.tab.row row' ref').pos := by
    rw [Tab.setRef_row, if_neg away, same]
  have aligned (same : file'.tab.row = file.tab.row) (here : cfg.Slotted → cfg.fixedLen ∣ pos - dataOffset)
      (slotted : cfg.Slotted) {row' : Fin 512} {ref' : Fin 16} {e : Entry}
      (there : c.set row ref (some ⟨tab, rnd, key, val⟩) row' ref' = some e) :
      cfg.fixedLen ∣ ((file'.tab.setRef row ref ⟨tab, rnd, pos⟩).row row' ref').pos - dataOffset := by
    rw [Contents.set_apply] at there
    split at there
    · rename_i at_
      rw [Tab.setRef_row, if_pos at_]
      exact here slotted
    · rename_i away
      rw [rows row' ref' away same]
      exact counted.live_aligned slotted there
  cases takes with
  | append same spent used' dataFree _ =>
    refine ⟨ok.placing pending, ?_, ?_, fun slotted => ?_, aligned same fun slotted => counted.used_aligned slotted,
      counted.free_aligned⟩
    · change file'.tab.tabDataUsed = _
      omega
    · change file'.tab.tabUsed = _ + file'.tab.tabDataUsed + file'.tab.tabDataFree
      omega
    · exact dataFree.trans (counted.dataFree slotted)
  | reuse same used' dataFree =>
    have slotted := counted.ok.slotted
    have len := pending.stored.record.fits.recordLen slotted.1
    have many := counted.dataFree slotted
    rw [List.length_cons, Nat.succ_mul] at many
    rw [len] at bytes dataUsed dataFree
    refine ⟨ok.placing pending, ?_, ?_, fun _ => ?_, aligned same fun slotted => counted.free_aligned slotted List.mem_cons_self,
      fun slotted {_} member => counted.free_aligned slotted (List.mem_cons_of_mem _ member)⟩
    · change file'.tab.tabDataUsed = _
      omega
    · change file'.tab.tabUsed = _ + file'.tab.tabDataUsed + file'.tab.tabDataFree
      omega
    · change file'.tab.tabDataFree = _
      omega

/-- An appended record leaves a packed table packed. -/
theorem Packed.placing {key val : List UInt8} {tab : Fin 2048} {rnd refsUsed : Nat} (packed : Packed cfg file c)
    (ok : TableOk cfg file' c free') (pending : Pending cfg file' c free' pos key val)
    (takes : Takes cfg (cfg.recordLen key.length val.length) file [] file' free' pos)
    (dataUsed : file'.tab.tabDataUsed = (file.tab.tabDataUsed + cfg.recordLen key.length val.length) % 2^32)
    (none_ : c row ref = none) :
    Packed cfg { file' with tab := { file'.tab.setRef row ref ⟨tab, rnd, pos⟩ with tabRefsUsed := refsUsed } }
      (c.set row ref (some ⟨tab, rnd, key, val⟩)) := by
  have counted := @Counted.placing _ _ _ _ _ _ row ref _ _ _ tab rnd packed.counted ok pending takes dataUsed none_
  have used := packed.used
  have bytes := @Contents.bytes_set cfg c row ref (some ⟨tab, rnd, key, val⟩)
  rw [none_] at bytes
  cases takes with
  | append _ _ _ dataFree size =>
    refine ⟨counted.refsUsed, dataFree.trans packed.dataFree, fun fixed => ?_⟩
    rcases packed.size fixed with ⟨n, bytes_eq, size_eq⟩
    have len := pending.stored.record.fits.recordLen fixed
    refine ⟨n + 1, ?_, ?_⟩
    · simp only [entryBytes, Entry.len, len, add_zero] at bytes
      rw [bytes, bytes_eq, Nat.succ_mul]
    · rw [len, used, bytes_eq, size_eq] at size
      exact size

theorem Counted.erasing (counted : Counted cfg file c free) (there : c row ref = some entry)
    (ok : TableOk cfg file' (c.set row ref none) free')
    (gives : Gives cfg row ref (entry.len cfg) file free file' free') : Counted cfg file' (c.set row ref none) free' := by
  have small := counted.small
  have used := counted.used
  have dataUsed := counted.dataUsed
  have bytes := @Contents.bytes_set cfg c row ref none
  have large := @Contents.le_bytes cfg c row ref entry there
  rw [there] at bytes
  simp only [entryBytes, add_zero] at bytes
  have dataUsed' := gives.dataUsed
  have dataFree' := gives.dataFree
  rw [Nat.mod_eq_of_lt (show entry.len cfg < 2^32 by omega)] at dataUsed' dataFree'
  refine ⟨ok, by omega, ?_, fun slotted => ?_, fun slotted {row' ref' e} other => ?_, fun slotted {p} member => ?_⟩
  · rw [gives.used]
    omega
  · have len := (counted.ok.live there).2.2.record.fits.recordLen slotted.1
    have many := counted.dataFree slotted
    rw [gives.listed slotted.1 slotted.2, List.length_cons, Nat.succ_mul]
    unfold Entry.len at dataFree' large
    omega
  · rw [gives.rows, Tab.setRef_row]
    rw [Contents.set_apply] at other
    split at other
    · cases other
    · rename_i away
      rw [if_neg away]
      exact counted.live_aligned slotted other
  · rw [gives.listed slotted.1 slotted.2] at member
    rcases List.mem_cons.mp member with rfl | before
    · exact counted.live_aligned slotted there
    · exact counted.free_aligned slotted before

theorem Counted.updating {new : List UInt8} (counted : Counted cfg file c free) (there : c row ref = some entry)
    (length : new.length = entry.val.length) :
    let off := (file.tab.row row ref).pos + 1 + cfg.lenLen + entry.key.length + cfg.lenLen
    Counted cfg { file with tab := { file.tab with data := write file.tab.data off new } }
      (c.set row ref (some { entry with val := new })) free := by
  intro off
  have bytes := @Contents.bytes_set cfg c row ref (some { entry with val := new })
  rw [there] at bytes
  simp only [entryBytes, Entry.len, length] at bytes
  refine ⟨counted.ok.updating there length, ?_, counted.used, counted.dataFree, fun slotted {row' ref' e} other => ?_,
    counted.free_aligned⟩
  · change file.tab.tabDataUsed = _
    rw [counted.dataUsed]
    omega
  · rw [Contents.set_apply] at other
    split at other
    · rename_i here
      rcases here with ⟨rfl, rfl⟩
      exact counted.live_aligned slotted there
    · exact counted.live_aligned slotted other

end Tables

end SharedHashFile.Store
