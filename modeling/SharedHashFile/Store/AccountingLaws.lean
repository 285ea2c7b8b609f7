import Mathlib.Data.Finset.Card
import SharedHashFile.Store.AccountingRuns

namespace SharedHashFile.Store

open ByteMemory Program LinkedList

section Slots

def positions {Place : Type} [Fintype Place] (live : Place → Prop) [DecidablePred live] (pos : Place → Nat) : Finset Nat :=
  (Finset.univ.filter live).image pos

variable {Place : Type} [Fintype Place] {live : Place → Prop} [DecidablePred live] {pos : Place → Nat} {low len total : Nat}

theorem mem_positions {p : Nat} : p ∈ positions live pos ↔ ∃ place, live place ∧ pos place = p := by
  simp only [positions, Finset.mem_image, Finset.mem_filter, Finset.mem_univ, true_and]

theorem sum_live (distinct : ∀ place place', live place → live place' → pos place = pos place' → place = place') :
    ∑ place, (if live place then len else 0) = (positions live pos).card * len := by
  have injective : Set.InjOn pos (Finset.univ.filter live) := by
    intro place here place' there same
    rw [Finset.mem_coe, Finset.mem_filter] at here there
    exact distinct place place' here.2 there.2 same
  rw [positions, Finset.card_image_of_injOn injective, ← Finset.sum_filter, Finset.sum_const, smul_eq_mul]

/-- Where as many slots are taken as there are, each one is. -/
theorem slot_taken {taken : Finset Nat} (slots : ∀ p ∈ taken, low ≤ p ∧ len ∣ p - low ∧ p + len ≤ low + total * len)
    (positive : 0 < len) (many : total ≤ taken.card) {p : Nat} (above : low ≤ p) (aligned : len ∣ p - low)
    (below : p + len ≤ low + total * len) : p ∈ taken := by
  have place {q : Nat} (slot : low ≤ q ∧ len ∣ q - low ∧ q + len ≤ low + total * len) :
      q ∈ (Finset.range total).image fun i => low + len * i := by
    rcases slot with ⟨above, ⟨i, aligned⟩, below⟩
    refine Finset.mem_image.mpr ⟨i, Finset.mem_range.mpr ?_, by omega⟩
    apply Nat.lt_of_mul_lt_mul_left (a := len)
    rw [← aligned, Nat.mul_comm len total]
    omega
  have whole := Finset.eq_of_subset_of_card_le (fun q member => place (slots q member))
    (Nat.le_trans Finset.card_image_le (by rwa [Finset.card_range]))
  rw [whole]
  exact place ⟨above, aligned, below⟩

end Slots

def Tab.recordBytes (cfg : Config) (t : Tab) (row : Fin 512) (ref : Fin 16) : Nat :=
  let item := recordItem cfg t.data (t.row row ref).pos
  cfg.recordLen item.key.length item.val.length

def Tab.Live (t : Tab) (row : Fin 512) (ref : Fin 16) : Prop := (t.row row ref).pos ≠ 0

instance (t : Tab) (row : Fin 512) (ref : Fin 16) : Decidable (t.Live row ref) :=
  inferInstanceAs (Decidable ((t.row row ref).pos ≠ 0))

/-- A table's records and its counters of bytes agree. -/
structure Tab.BytesAddUp (cfg : Config) (t : Tab) : Prop where
  inside : ∀ row ref, t.Live row ref →
    dataOffset ≤ (t.row row ref).pos ∧ (t.row row ref).pos + t.recordBytes cfg row ref ≤ t.tabUsed
  apart : ∀ row ref row' ref', t.Live row ref → t.Live row' ref' → ¬(row' = row ∧ ref' = ref) →
    Apart (t.row row ref).pos (t.recordBytes cfg row ref) (t.row row' ref').pos (t.recordBytes cfg row' ref')
  dataUsed : t.tabDataUsed = ∑ row, ∑ ref, if t.Live row ref then t.recordBytes cfg row ref else 0
  used : t.tabUsed = dataOffset + t.tabDataUsed + t.tabDataFree
  used_le : t.tabUsed ≤ t.tabSize

structure Tab.IsSlot (cfg : Config) (t : Tab) (p : Nat) : Prop where
  low : dataOffset ≤ p
  aligned : cfg.fixedLen ∣ p - dataOffset
  high : p + cfg.fixedLen ≤ t.tabUsed

def Tab.Deleted (cfg : Config) (t : Tab) (p : Nat) : Prop := t.IsSlot cfg p ∧ ∀ row ref, (t.row row ref).pos ≠ p

structure Tab.FreeListed (cfg : Config) (t : Tab) (free : List Nat) : Prop where
  chain : Chain 0 (nextFree t.data) t.tabDataFreePos free
  once : free.Nodup
  exactly : ∀ p, p ∈ free ↔ t.Deleted cfg p
  dataFree : t.tabDataFree = free.length * cfg.fixedLen
  whole : cfg.fixedLen ∣ t.tabUsed - dataOffset

section Tables

variable {cfg : Config} {file : File} {c : Contents} {free : List Nat} {row : Fin 512} {ref : Fin 16} {p : Nat}
  {entry : Entry}

section Records

variable (counted : Counted cfg file c free)
include counted

theorem Counted.recordBytes (there : c row ref = some entry) : file.tab.recordBytes cfg row ref = entry.len cfg := by
  unfold Tab.recordBytes
  rw [(counted.ok.live there).2.2.record.item]
  rfl

theorem Counted.live (there : c row ref = some entry) : file.tab.Live row ref := counted.ok.occupied there

theorem Counted.live_entry (live : file.tab.Live row ref) : ∃ entry, c row ref = some entry :=
  Option.ne_none_iff_exists'.mp (mt counted.ok.pos_zero_iff.mpr live)

theorem Counted.entryBytes_eq :
    entryBytes cfg (c row ref) = if file.tab.Live row ref then file.tab.recordBytes cfg row ref else 0 := by
  cases there : c row ref with
  | none =>
    rw [if_neg fun live => live (counted.ok.dead there)]
    rfl
  | some entry =>
    rw [if_pos (counted.live there), counted.recordBytes there]
    rfl

theorem Counted.bytesAddUp : file.tab.BytesAddUp cfg where
  inside row ref live := by
    rcases counted.live_entry live with ⟨entry, there⟩
    have stored := (counted.ok.live there).2.2
    rw [counted.recordBytes there]
    exact ⟨stored.low, stored.high⟩
  apart row ref row' ref' live live' differ := by
    rcases counted.live_entry live with ⟨entry, there⟩
    rcases counted.live_entry live' with ⟨entry', there'⟩
    rw [counted.recordBytes there, counted.recordBytes there']
    exact counted.ok.apart there there' differ
  dataUsed := by
    rw [counted.dataUsed]
    exact Finset.sum_congr rfl fun row _ => Finset.sum_congr rfl fun ref _ => counted.entryBytes_eq
  used := counted.used
  used_le := by
    rw [counted.ok.header]
    exact counted.ok.used_high

theorem Counted.free_nodup : free.Nodup := by
  refine counted.ok.spare_apart.imp ?_
  rintro p q apart rfl
  unfold Apart Config.fixedLen Config.recordLen at apart
  omega

theorem Counted.pos_distinct (place place' : Fin 512 × Fin 16) (live : file.tab.Live place.1 place.2)
    (live' : file.tab.Live place'.1 place'.2)
    (same : (file.tab.row place.1 place.2).pos = (file.tab.row place'.1 place'.2).pos) : place = place' := by
  rcases counted.live_entry live with ⟨entry, there⟩
  rcases counted.live_entry live' with ⟨entry', there'⟩
  by_contra differ
  have apart := counted.ok.apart there there' fun both => differ (Prod.ext both.1.symm both.2.symm)
  unfold Apart Entry.len Config.recordLen at apart
  omega

end Records

def livePositions (t : Tab) : Finset Nat :=
  positions (fun place : Fin 512 × Fin 16 => t.Live place.1 place.2) fun place => (t.row place.1 place.2).pos

theorem mem_livePositions {t : Tab} : p ∈ livePositions t ↔ ∃ row ref, t.Live row ref ∧ (t.row row ref).pos = p := by
  unfold livePositions
  rw [mem_positions]
  exact ⟨fun ⟨place, here⟩ => ⟨place.1, place.2, here⟩, fun ⟨row, ref, here⟩ => ⟨(row, ref), here⟩⟩

attribute [local irreducible] livePositions

variable (slotted : cfg.Slotted) (counted : Counted cfg file c free)
include slotted counted

theorem Counted.len_eq (there : c row ref = some entry) : entry.len cfg = cfg.fixedLen :=
  (counted.ok.live there).2.2.record.fits.recordLen slotted.1

theorem Counted.bytes_eq : c.bytes cfg = (livePositions file.tab).card * cfg.fixedLen := by
  have each (place : Fin 512 × Fin 16) : entryBytes cfg (c place.1 place.2) =
      if file.tab.Live place.1 place.2 then cfg.fixedLen else 0 := by
    rw [counted.entryBytes_eq]
    split
    · rename_i live
      rcases counted.live_entry live with ⟨entry, there⟩
      rw [counted.recordBytes there, counted.len_eq slotted there]
    · rfl
  unfold Contents.bytes livePositions
  rw [← sum_live counted.pos_distinct, ← Finset.sum_congr rfl fun place _ => each place]
  exact (Fintype.sum_prod_type' fun row ref => entryBytes cfg (c row ref)).symm

theorem Counted.live_slot (there : c row ref = some entry) : file.tab.IsSlot cfg (file.tab.row row ref).pos := by
  have stored := (counted.ok.live there).2.2
  refine ⟨stored.low, counted.live_aligned slotted there, ?_⟩
  rw [← counted.len_eq slotted there]
  exact stored.high

theorem Counted.free_deleted (member : p ∈ free) : file.tab.Deleted cfg p := by
  rcases counted.ok.spare member with ⟨_, _, low, high⟩
  refine ⟨⟨low, counted.free_aligned slotted member, high⟩, fun row ref here => ?_⟩
  have live : file.tab.Live row ref := by
    unfold Tab.Live
    rw [here]
    unfold dataOffset at low
    omega
  rcases counted.live_entry live with ⟨entry, there⟩
  have apart := counted.ok.spare_live member there
  rw [here] at apart
  unfold Apart Entry.len Config.fixedLen Config.recordLen at apart
  omega

theorem Counted.slot_taken (slot : file.tab.IsSlot cfg p) : p ∈ free.toFinset ∪ livePositions file.tab := by
  have positive : 0 < cfg.fixedLen := by
    unfold Config.fixedLen Config.recordLen
    omega
  have used := counted.used
  rw [counted.dataUsed, counted.dataFree slotted, counted.bytes_eq slotted, Nat.add_assoc, ← Nat.add_mul] at used
  have disjoint : Disjoint free.toFinset (livePositions file.tab) := by
    rw [Finset.disjoint_left]
    intro q listed live
    rcases mem_livePositions.mp live with ⟨row, ref, _, here⟩
    exact (counted.free_deleted slotted (List.mem_toFinset.mp listed)).2 row ref here
  have many : (free.toFinset ∪ livePositions file.tab).card = (livePositions file.tab).card + free.length := by
    rw [Finset.card_union_of_disjoint disjoint, List.toFinset_card_of_nodup counted.free_nodup, Nat.add_comm]
  refine Store.slot_taken (fun q member => ?_) positive (Nat.le_of_eq many.symm) slot.low slot.aligned (used ▸ slot.high)
  have inside : file.tab.IsSlot cfg q := by
    rcases Finset.mem_union.mp member with listed | live
    · exact (counted.free_deleted slotted (List.mem_toFinset.mp listed)).1
    · rcases mem_livePositions.mp live with ⟨row, ref, isLive, rfl⟩
      rcases counted.live_entry isLive with ⟨entry, there⟩
      exact counted.live_slot slotted there
  exact ⟨inside.low, inside.aligned, used ▸ inside.high⟩

theorem Counted.freeListed : file.tab.FreeListed cfg free := by
  refine ⟨counted.ok.chain, counted.free_nodup, fun p => ⟨fun member => counted.free_deleted slotted member, ?_⟩,
    counted.dataFree slotted, counted.used_aligned slotted⟩
  rintro ⟨slot, nowhere⟩
  rcases Finset.mem_union.mp (counted.slot_taken slotted slot) with listed | live
  · exact List.mem_toFinset.mp listed
  · rcases mem_livePositions.mp live with ⟨row, ref, _, here⟩
    exact absurd here (nowhere row ref)

end Tables

def State.TabAt (s : State Disk) (win : Fin 256) (tab : Nat) (t : Tab) : Prop :=
  ∃ file, s.map.path win tab = some file ∧ (s.map.files file).tab = t ∧ t.tabSize ≠ 0

section Attaining

variable {cfg : Config} {s : State Disk} {t : State Tables}

theorem Settled.tabAt {win : Fin 256} {tab : Nat} {table : Tab} (settled : Settled s t) (at_ : s.TabAt win tab table) :
    ∃ file, t.map.fileAt (.tab win tab) = some file ∧ file.tab = table ∧ Tables.opened file = file := by
  rcases settled with ⟨L, tracks, _⟩
  rcases at_ with ⟨number, path, rfl, inUse⟩
  refine ⟨s.map.files number, ?_, rfl, if_neg inUse⟩
  rw [← tracks.tables]
  change (s.map.path win tab).map s.map.files = _
  rw [path]
  rfl

theorem Accounted.counted_at {win : Fin 256} {tab : Nat} {table : Tab} (accounted : Accounted cfg t) (settled : Settled s t)
    (at_ : s.TabAt win tab table) : ∃ file c free, t.map.fileAt (.tab win tab) = some file ∧ file.tab = table ∧
      Counted cfg file c free := by
  rcases settled.tabAt at_ with ⟨file, there, same, opened⟩
  rcases accounted.counted _ _ there with ⟨c, free, counted⟩
  rw [opened] at counted
  exact ⟨file, c, free, there, same, counted⟩

end Attaining

theorem Config.Linkable.of_long {cfg : Config} (long : cfg.isFixedKeyValLen = true → 8 ≤ cfg.fixedKeyLen + cfg.fixedValLen) :
    cfg.Linkable := by
  intro fixed
  apply Or.inr
  apply long
  unfold Config.lenLen at fixed
  by_contra variable_
  rw [if_neg variable_] at fixed
  cases fixed

/-- Records and counters of bytes agree in all tables, whatever any processes did. -/
theorem bytes_addUp (cfg : Config) (long : cfg.isFixedKeyValLen = true → 8 ≤ cfg.fixedKeyLen + cfg.fixedValLen)
    (vfs : Nat → Nat) (tls : Tls) (sections : List Section) (s : State Disk) (attained : Attained cfg vfs tls sections s)
    (fits : ∀ part ∈ sections, part.Fits cfg) (win : Fin 256) (tab : Nat) (table : Tab) (at_ : s.TabAt win tab table) :
    table.BytesAddUp cfg := by
  rcases attained.accounted (Config.Linkable.of_long long) fits with ⟨t, settled, accounted⟩
  rcases accounted.counted_at settled at_ with ⟨file, c, free, _, rfl, counted⟩
  exact counted.bytesAddUp

/-- A section raises the end of the used data of a table only if it has no deleted slot. -/
def State.SparesLast (cfg : Config) (s : State Disk) (part : Section) : Prop :=
  let run := runProcesses mapped cfg [part] s
  run.peak < 2^32 → run.value.isOk = true → ∀ win tab before after, s.TabAt win tab before →
    run.state.TabAt win tab after → before.tabUsed < after.tabUsed → ∀ p, ¬ before.Deleted cfg p

/-- The free list of every table has its deleted slots, and a put spares them only when there is none. -/
theorem deleted_slots_listed (cfg : Config) (fixed : cfg.isFixedKeyValLen = true)
    (long : 8 ≤ cfg.fixedKeyLen + cfg.fixedValLen) (vfs : Nat → Nat) (tls : Tls) (sections : List Section) (s : State Disk)
    (attained : Attained cfg vfs tls sections s) (fits : ∀ part ∈ sections, part.Fits cfg) :
    (∀ win tab table, s.TabAt win tab table → ∃ free, table.FreeListed cfg free) ∧
      ∀ part : Section, (∃ val, part.work = .put val) → part.Fits cfg → s.SparesLast cfg part := by
  have slotted : cfg.Slotted := ⟨by unfold Config.lenLen; rw [if_pos fixed], long⟩
  have linkable := Config.Linkable.of_long fun _ => long
  rcases attained.accounted linkable fits with ⟨t, settled, accounted⟩
  constructor
  · intro win tab table at_
    rcases accounted.counted_at settled at_ with ⟨file, c, free, _, rfl, counted⟩
    exact ⟨free, counted.freeListed slotted⟩
  · intro part put fits within ended win tab before after at_ at_' more p deleted
    rcases accounted.ok with ⟨b, ok⟩
    have guarded := InUse.runs_guarded ⟨t, settled, ok⟩ linkable (List.forall_mem_singleton.mpr fits) within
    rw [guarded] at within ended at_'
    have raises := (runSections_simulates guarded_faithful settled).ends
      (section_accounted linkable accounted fits) within
    cases value : (runProcesses mapped.guarded cfg [part] s).value with
    | error e =>
      rw [value] at ended
      cases ended
    | ok results =>
      rw [value] at raises
      rcases raises with ⟨t', settled', _, raises⟩
      rcases accounted.counted_at settled at_ with ⟨file, c, free, there, rfl, counted⟩
      rcases settled'.tabAt at_' with ⟨file', there', rfl, _⟩
      rcases at_ with ⟨_, _, _, opened⟩
      have listed := ((counted.freeListed slotted).exactly p).mpr deleted
      have first := counted.ok.chain
      rw [raises put _ _ _ there there' opened more] at first
      cases first.unique .nil
      cases listed

def slotSections : List Section :=
  [⟨1, smallTls [1, 1, 1, 1], .put (.copy [10, 10, 10, 10])⟩, ⟨2, smallTls [2, 2, 2, 2], .put (.reserve 4)⟩,
    ⟨1, smallTls [1, 1, 1, 1], .find uidNone .delete⟩]

def slotStored : State Disk :=
  (runProcesses mapped (fixedConfig 4 4) slotSections (State.initial (fun _ => 2^40) (smallTls []))).state

theorem slotSections_run : Attained (fixedConfig 4 4) (fun _ => 2^40) (smallTls []) slotSections slotStored ∧
    slotStored.TabAt 0 0 (slotStored.map.files 0).tab :=
  ⟨⟨by decide +kernel, by decide +kernel, rfl⟩, 0, by decide +kernel, rfl, by decide +kernel⟩

theorem slotSections_fit : ∀ part ∈ slotSections, part.Fits (fixedConfig 4 4) := by
  intro part member val work _
  simp only [slotSections, List.mem_cons, List.not_mem_nil, or_false] at member
  rcases member with rfl | rfl | rfl
  · cases work
    exact ⟨rfl, rfl⟩
  · cases work
    exact ⟨rfl, rfl⟩
  · cases work

theorem slotStored_bytes_addUp : (slotStored.map.files 0).tab.BytesAddUp (fixedConfig 4 4) :=
  bytes_addUp (fixedConfig 4 4) (fun _ => by decide) _ _ _ _ slotSections_run.1 slotSections_fit 0 0 _ slotSections_run.2

theorem slotStored_listed : (∃ free, (slotStored.map.files 0).tab.FreeListed (fixedConfig 4 4) free) ∧
    slotStored.SparesLast (fixedConfig 4 4) ⟨2, smallTls [3, 3, 3, 3], .put (.copy [30, 30, 30, 30])⟩ := by
  have laws := deleted_slots_listed (fixedConfig 4 4) rfl (by decide) _ _ _ _ slotSections_run.1 slotSections_fit
  refine ⟨laws.1 0 0 _ slotSections_run.2, laws.2 _ ⟨_, rfl⟩ ?_⟩
  intro val work _
  cases work
  exact ⟨rfl, rfl⟩

end SharedHashFile.Store
