import SharedHashFile.Store.Sections
import SharedHashFile.Store.SimulationCalls

namespace SharedHashFile.Store

open ByteMemory Program

/-- The relation between critical sections: no mapping is taken for granted. -/
def Settled (s : State Disk) (t : State Tables) : Prop :=
  ∃ L, Tracks (fun _ _ => False) L s t ∧ L.Numbered ∧ L.old = false

section Calls

variable {m : Mapping Disk} {cfg : Config} {keep : Fin 256 → Nat → Prop} {L : Layout} {s : State Disk}
  {t : State Tables} {win : Fin 256} {tab : Nat} {slot : Slot}

section Put

variable {val : PutVal} (faithful : Faithful m)
include faithful

theorem putSection_simulates (settled : Settled s t) :
    Simulates sizeLimit (putSection m cfg val) (putSection direct cfg val) (fun _ => Settled) s t := by
  obtain ⟨L, tracks, numbered, none_⟩ := settled
  refine simulates_bind (getTls_simulates tracks) fun tls s t tracks => ?_
  refine simulates_bind (getWin_simulates tracks) ?_
  rintro w s t ⟨tracks, tabs, _⟩
  have present : L.present (tls.hash.slot 0).win (w.tabs (tls.hash.slot 0).tab) = true := by
    rw [tabs]
    exact (numbered.present_iff _ _).mpr (numbered.tabs_lt _ _)
  have known : Known (also (fun _ _ => False) (tls.hash.slot 0).win (w.tabs (tls.hash.slot 0).tab))
      (.tab (tls.hash.slot 0).win (w.tabs (tls.hash.slot 0).tab)) := .inr ⟨rfl, rfl⟩
  refine simulates_bind (getTabMmap_simulates faithful tracks present) fun _ s t tracks => ?_
  refine simulates_bind (tabAt_simulates faithful tracks known) ?_
  rintro t' _ _ ⟨rfl, rfl, _⟩
  cases firstFree (t'.row (tls.hash.slot 0).row) with
  | none =>
    refine simulates_bind (tabPart_simulates faithful tracks numbered none_ known) ?_
    rintro _ s t ⟨L', tracks, settled⟩
    exact simulates_pure ⟨L', tracks.forget fun _ _ => False.elim, settled⟩
  | some ref =>
    refine simulates_bind (tabAppend_simulates faithful tracks known) fun pos s t tracks => ?_
    refine simulates_bind (modifyTab_simulates faithful tracks known fun _ => rfl) fun _ s t tracks => ?_
    refine simulates_bind (tabAt_simulates faithful tracks known) ?_
    rintro t'' _ _ ⟨rfl, rfl, _⟩
    refine simulates_bind (when_simulates tracks fun _ => tabShrink_simulates faithful tracks known none_)
      fun _ s t tracks => ?_
    refine simulates_bind (modifyTls_simulates tracks) fun _ s t tracks => ?_
    exact simulates_pure ⟨L, tracks.forget fun _ _ => False.elim, numbered, none_⟩

end Put

section Find

variable (faithful : Faithful m) (tracks : Tracks keep L s t) (known : Known keep (.tab win tab))
include faithful tracks known

theorem loadRecord_simulates {pos : Nat} : Simulates sizeLimit (loadRecord m cfg win tab pos)
    (loadRecord direct cfg win tab pos) (fun _ => Tracks keep L) s t := by
  refine simulates_bind (tabAt_simulates faithful tracks known) ?_
  rintro t' _ _ ⟨rfl, rfl, _⟩
  refine simulates_bind (check_simulates tracks) ?_
  rintro _ s t ⟨tracks, _⟩
  refine simulates_bind (access_simulates faithful tracks known) ?_
  rintro _ s t ⟨tracks, _⟩
  refine simulates_bind (recordLens_simulates faithful tracks known) ?_
  rintro ⟨keyLen, valLen⟩ s t tracks
  refine simulates_bind (check_simulates tracks) ?_
  rintro _ s t ⟨tracks, _⟩
  refine simulates_bind (check_simulates tracks) ?_
  rintro _ s t ⟨tracks, _⟩
  refine simulates_bind (modifyTls_simulates tracks) fun _ s t tracks => ?_
  exact simulates_pure tracks

theorem copyKey_simulates {keyLen : Nat} : Simulates sizeLimit (copyKey m win tab keyLen)
    (copyKey direct win tab keyLen) (fun _ => Tracks keep L) s t := by
  refine simulates_bind (getTls_simulates tracks) fun tls s t tracks => ?_
  refine simulates_bind (readMem_simulates faithful tracks known) fun key s t tracks => ?_
  exact modifyTls_simulates tracks

theorem copyVal_simulates {valLen : Nat} : Simulates sizeLimit (copyVal m win tab valLen)
    (copyVal direct win tab valLen) (fun _ => Tracks keep L) s t := by
  refine simulates_bind (getTls_simulates tracks) fun tls s t tracks => ?_
  refine simulates_bind (readMem_simulates faithful tracks known) fun val s t tracks => ?_
  exact modifyTls_simulates tracks

theorem considerTabShrink_simulates (none_ : L.old = false) : Simulates sizeLimit
    (considerTabShrink m cfg win tab) (considerTabShrink direct cfg win tab) (fun _ => Tracks keep L) s t := by
  refine simulates_bind (tabAt_simulates faithful tracks known) ?_
  rintro t' _ _ ⟨rfl, rfl, _⟩
  exact when_simulates tracks fun _ => tabShrink_simulates faithful tracks known none_

theorem atomAdd_simulates {valLen : Nat} : Simulates sizeLimit (atomAdd m win tab valLen)
    (atomAdd direct win tab valLen) (fun _ => Tracks keep L) s t := by
  refine simulates_ite (fun _ => ?_) fun _ => simulates_pure tracks
  refine simulates_bind (getTls_simulates tracks) fun tls s t tracks => ?_
  refine simulates_bind (readMem_simulates faithful tracks known) fun bytes s t tracks => ?_
  refine simulates_bind (writeMem_simulates faithful tracks known) fun _ s t tracks => ?_
  refine simulates_bind (modifyTls_simulates tracks) fun _ s t tracks => ?_
  exact simulates_pure tracks

theorem updCallbackCopy_simulates {valLen : Nat} : Simulates sizeLimit (updCallbackCopy m win tab valLen)
    (updCallbackCopy direct win tab valLen) (fun _ => Tracks keep L) s t := by
  refine simulates_bind (modifyTls_simulates tracks) fun _ s t tracks => ?_
  refine simulates_bind (getTls_simulates tracks) fun tls s t tracks => ?_
  refine simulates_bind (check_simulates tracks) ?_
  rintro _ s t ⟨tracks, _⟩
  refine simulates_bind (when_simulates tracks fun _ => writeMem_simulates faithful tracks known)
    fun _ s t tracks => ?_
  refine simulates_bind (modifyTls_simulates tracks) fun _ s t tracks => ?_
  exact simulates_pure tracks

end Find

section Slots

variable (faithful : Faithful m) (tracks : Tracks keep L s t) (known : Known keep (.tab slot.win tab))
include faithful tracks known

theorem searchRow_simulates {rnd : Nat} {refs : List (Fin 16)} :
    Simulates sizeLimit (searchRow m cfg slot tab rnd refs) (searchRow direct cfg slot tab rnd refs)
      (fun _ => Tracks keep L) s t := by
  induction refs generalizing s t with
  | nil => exact simulates_pure tracks
  | cons ref rest ih =>
    refine simulates_bind (tabAt_simulates faithful tracks known) ?_
    rintro t' _ _ ⟨rfl, rfl, _⟩
    refine simulates_ite (fun _ => ?_) fun _ => ih tracks
    refine simulates_bind (loadRecord_simulates faithful tracks known) ?_
    rintro ⟨keyLen, valLen⟩ s t tracks
    refine simulates_bind (getTls_simulates tracks) fun tls s t tracks => ?_
    refine simulates_ite (fun _ => ?_) fun _ => ?_
    · exact simulates_bind (modifyWin_simulates tracks (fun _ => rfl) fun _ => rfl) fun _ s t tracks => ih tracks
    refine simulates_bind (readMem_simulates faithful tracks known) fun key s t tracks => ?_
    refine simulates_ite (fun _ => ?_) fun _ => simulates_pure tracks
    exact simulates_bind (modifyWin_simulates tracks (fun _ => rfl) fun _ => rfl) fun _ s t tracks => ih tracks

theorem findKey_simulates : Simulates sizeLimit (findKey m cfg slot tab) (findKey direct cfg slot tab)
    (fun _ => Tracks keep L) s t := by
  refine simulates_bind (modifyTls_simulates tracks) fun _ s t tracks => ?_
  refine simulates_bind (getTls_simulates tracks) fun tls s t tracks => ?_
  refine simulates_bind (searchRow_simulates faithful tracks known) fun found s t tracks => ?_
  cases found with
  | none => exact simulates_pure tracks
  | some record => exact simulates_bind (modifyTls_simulates tracks) fun _ s t tracks => simulates_pure tracks

theorem findUid_simulates : Simulates sizeLimit (findUid m cfg slot tab) (findUid direct cfg slot tab)
    (fun _ => Tracks keep L) s t := by
  refine simulates_bind (tabAt_simulates faithful tracks known) ?_
  rintro t' _ _ ⟨rfl, rfl, _⟩
  refine simulates_ite (fun _ => ?_) fun _ => simulates_pure tracks
  refine simulates_bind (loadRecord_simulates faithful tracks known) ?_
  rintro ⟨keyLen, valLen⟩ s t tracks
  exact simulates_pure tracks

theorem deleteFound_simulates {record : Found} : Simulates sizeLimit (deleteFound m cfg slot tab record)
    (deleteFound direct cfg slot tab record) (fun _ => Tracks keep L) s t :=
  simulates_bind (tabRefMarkAsDeleted_simulates faithful tracks known) fun _ _ _ tracks =>
    modifyTls_simulates tracks

theorem deleteKey_simulates {record : Found} : Simulates sizeLimit (deleteKey m cfg slot tab record)
    (deleteKey direct cfg slot tab record) (fun _ => Tracks keep L) s t := by
  refine simulates_bind (getTls_simulates tracks) fun tls s t tracks => ?_
  refine simulates_ite (fun _ => ?_) fun _ => ?_
  · refine simulates_bind (readU32_simulates faithful tracks known) fun ttl s t tracks => ?_
    refine simulates_ite (fun _ => ?_) fun _ => ?_
    · exact simulates_bind (modifyTls_simulates tracks) fun _ s t tracks => simulates_pure tracks
    · refine simulates_bind (copyVal_simulates faithful tracks known) fun _ s t tracks => ?_
      exact simulates_bind (deleteFound_simulates faithful tracks known) fun _ s t tracks => simulates_pure tracks
  · exact simulates_bind (deleteFound_simulates faithful tracks known) fun _ s t tracks => simulates_pure tracks

theorem actOn_simulates {record : Found} {what : FindKeyAnd} (none_ : L.old = false) :
    Simulates sizeLimit (actOn m cfg slot tab record what) (actOn direct cfg slot tab record what)
      (fun _ => Tracks keep L) s t := by
  cases what with
  | addr => exact simulates_pure tracks
  | copyKey =>
    refine simulates_bind (copyKey_simulates faithful tracks known) fun _ s t tracks => ?_
    refine simulates_bind (considerTabShrink_simulates faithful tracks known none_) fun _ s t tracks => ?_
    exact simulates_pure tracks
  | copyVal =>
    refine simulates_bind (copyVal_simulates faithful tracks known) fun _ s t tracks => ?_
    refine simulates_bind (considerTabShrink_simulates faithful tracks known none_) fun _ s t tracks => ?_
    exact simulates_pure tracks
  | atomAdd => exact atomAdd_simulates faithful tracks known
  | delete => exact deleteKey_simulates faithful tracks known
  | update =>
    exact simulates_bind (updCallbackCopy_simulates faithful tracks known) fun _ s t tracks =>
      simulates_pure tracks

theorem findKeyOrUid_simulates {uid : Nat} : Simulates sizeLimit (findKeyOrUid m cfg uid slot tab)
    (findKeyOrUid direct cfg uid slot tab) (fun _ => Tracks keep L) s t :=
  simulates_ite (fun _ => findKey_simulates faithful tracks known) fun _ => findUid_simulates faithful tracks known

end Slots

theorem findKeyInternal_simulates {uid : Nat} {what : FindKeyAnd} (faithful : Faithful m)
    (settled : Settled s t) : Simulates sizeLimit (findKeyInternal m cfg uid what)
      (findKeyInternal direct cfg uid what) (fun _ => Settled) s t := by
  obtain ⟨L, tracks, numbered, none_⟩ := settled
  refine simulates_bind (getTls_simulates tracks) fun tls s t tracks => ?_
  generalize (if uid = uidNone then tls.hash.slot 0 else uidSlot uid) = slot
  refine simulates_bind (getWin_simulates tracks) ?_
  rintro w s t ⟨tracks, tabs, _⟩
  have present : L.present slot.win (w.tabs slot.tab) = true := by
    rw [tabs]
    exact (numbered.present_iff _ _).mpr (numbered.tabs_lt _ _)
  have known : Known (also (fun _ _ => False) slot.win (w.tabs slot.tab))
      (.tab slot.win (w.tabs slot.tab)) := .inr ⟨rfl, rfl⟩
  refine simulates_bind (getTabMmap_simulates faithful tracks present) fun _ s t tracks => ?_
  refine simulates_bind (findKeyOrUid_simulates faithful tracks known) fun found s t tracks => ?_
  cases found with
  | none =>
    refine simulates_bind (modifyTls_simulates tracks) fun _ s t tracks => ?_
    exact simulates_pure ⟨L, tracks.forget fun _ _ => False.elim, numbered, none_⟩
  | some record =>
    refine (actOn_simulates faithful tracks known none_).mono fun _ s t tracks => ?_
    exact ⟨L, tracks.forget fun _ _ => False.elim, numbered, none_⟩

theorem Work.run_simulates {work : Work} (faithful : Faithful m) (settled : Settled s t) :
    Simulates sizeLimit (work.run m cfg) (work.run direct cfg) (fun _ => Settled) s t := by
  cases work with
  | put val =>
    refine simulates_bind (putSection_simulates faithful settled) fun _ s t settled => ?_
    exact simulates_pure settled
  | find uid what =>
    refine simulates_bind (findKeyInternal_simulates faithful settled) fun _ s t settled => ?_
    exact simulates_pure settled

end Calls

section Runs

variable {m : Mapping Disk} {cfg : Config} {s : State Disk} {t : State Tables}

theorem Settled.modifyTls {f : Tls → Tls} (settled : Settled s t) :
    Simulates sizeLimit (modifyTls f) (modifyTls f) (fun _ => Settled) s t := by
  obtain ⟨L, tracks, rest⟩ := settled
  exact (modifyTls_simulates tracks).mono fun _ _ _ tracks => ⟨L, tracks, rest⟩

theorem Settled.getTls (settled : Settled s t) : Simulates sizeLimit getTls getTls (fun _ => Settled) s t := by
  obtain ⟨L, tracks, rest⟩ := settled
  exact (getTls_simulates tracks).mono fun _ _ _ tracks => ⟨L, tracks, rest⟩

theorem Settled.tables_eq (settled : Settled s t) : s.map.tables = t.map ∧ s.shared = t.shared := by
  obtain ⟨L, tracks, _⟩ := settled
  exact ⟨tracks.tables, tracks.shared⟩

theorem Settled.switch {process : Nat} (settled : Settled s t) :
    Settled { s with map := s.map.switch process } t := by
  obtain ⟨L, tracks, numbered, none_⟩ := settled
  have old := tracks.old_none none_
  refine ⟨L, ⟨tracks.shared, ?_, tracks.tables, tracks.layout⟩, numbered, none_⟩
  have coherent := tracks.coherent
  refine ⟨coherent.path_lt, coherent.path_inj, coherent.tab_lt, coherent.sizes, coherent.off_lt, coherent.off_size,
    coherent.off_home, coherent.off_live, coherent.off_opened, coherent.old_lt, coherent.old_len,
    coherent.old_gone, fun isOld _ => ?_, False.elim⟩
  change s.map.old = _ at isOld
  rw [old] at isOld
  cases isOld

theorem runSections_simulates (faithful : Faithful m) {sections : List Section} (settled : Settled s t) :
    Simulates sizeLimit (runProcesses m cfg sections) (runSections direct cfg (fun _ T => T) sections)
      (fun _ => Settled) s t := by
  induction sections generalizing s t with
  | nil => exact simulates_pure settled
  | cons part rest ih =>
    have switched : Simulates sizeLimit (onMap (modify (Disk.switch part.process)))
        (onMap (modify fun T => T)) (fun _ => Settled) s t :=
      onMap_simulates (simulates_modify settled.switch)
    refine simulates_bind switched fun _ s t settled => ?_
    refine simulates_bind settled.modifyTls fun _ s t settled => ?_
    refine simulates_bind (Work.run_simulates faithful settled) fun result s t settled => ?_
    refine simulates_bind settled.getTls fun _ s t settled => ?_
    refine simulates_bind (ih settled) fun _ s t settled => ?_
    exact simulates_pure settled

end Runs

end SharedHashFile.Store
