import SharedHashFile.Store.Assertions
import SharedHashFile.Store.Clients

namespace SharedHashFile.Store

open Program

/-- The same tables, but that header and rows cannot be accessed as data. -/
def Mapping.guarded {μ : Type} (m : Mapping μ) : Mapping μ := { m with lowest := dataOffset }

section Operations

variable {μ : Type} {m : Mapping μ} {cfg : Config} {ptr : Ptr} {win : Fin 256} {tab : Nat} (low : m.lowest ≤ dataOffset)
include low

theorem access_follows (off len : Nat) : Follows .below (access m ptr off len) (access m.guarded ptr off len) := by
  refine follows_bind (follows_refl (viewAt m ptr)) fun view => follows_bind (follows_check ?_) fun _ => follows_refl _
  exact Or.imp_right (Nat.le_trans low)

theorem readMem_follows (off len : Nat) : Follows .below (readMem m ptr off len) (readMem m.guarded ptr off len) :=
  follows_bind (access_follows low off len) fun _ => follows_refl _

theorem writeMem_follows (off : Nat) (bytes : List UInt8) :
    Follows .below (writeMem m ptr off bytes) (writeMem m.guarded ptr off bytes) :=
  follows_bind (access_follows low off _) fun _ => follows_refl _

theorem readU32_follows (off : Nat) : Follows .below (readU32 m ptr off) (readU32 m.guarded ptr off) :=
  follows_bind (readMem_follows low off 4) fun _ => follows_refl _

theorem writeVal_follows (off : Nat) (val : PutVal) :
    Follows .below (writeVal m ptr off val) (writeVal m.guarded ptr off val) := by
  cases val with
  | copy bytes => exact writeMem_follows low off bytes
  | reserve len => exact follows_refl _

theorem reuseDeleted_follows (key : List UInt8) (val : PutVal) (pos : Nat) :
    Follows .below (reuseDeleted m cfg win tab key val pos) (reuseDeleted m.guarded cfg win tab key val pos) := by
  refine follows_bind (readU32_follows low _) fun next => follows_bind (follows_refl _) fun _ => ?_
  refine follows_bind (writeMem_follows low _ _) fun _ => follows_bind (writeMem_follows low _ _) fun _ => ?_
  exact follows_bind (writeVal_follows low _ _) fun _ => follows_refl _

theorem appendRecord_follows (key : List UInt8) (val : PutVal) (dataNeeded : Nat) : Follows .below
    (appendRecord m cfg win tab key val dataNeeded) (appendRecord m.guarded cfg win tab key val dataNeeded) := by
  refine follows_bind (follows_refl _) fun t => follows_bind (follows_refl _) fun _ => follows_bind (follows_refl _) fun _ => ?_
  refine follows_bind (writeMem_follows low _ _) fun _ => follows_bind (follows_when ?_) fun _ => ?_
  · exact follows_bind (writeMem_follows low _ _) fun _ => writeMem_follows low _ _
  · exact follows_bind (writeMem_follows low _ _) fun _ => follows_bind (writeVal_follows low _ _) fun _ => follows_refl _

theorem tabAppend_follows (key : List UInt8) (val : PutVal) (pos : Nat) :
    Follows .below (tabAppend m cfg win tab key val pos) (tabAppend m.guarded cfg win tab key val pos) := by
  refine follows_bind (follows_refl _) fun _ => follows_bind (follows_refl _) fun t => follows_bind (follows_ite ?_ ?_) ?_
  · exact follows_bind (reuseDeleted_follows low key val _) fun _ => follows_refl _
  · refine follows_bind (follows_refl _) fun _ => follows_bind (follows_refl _) fun _ => ?_
    exact follows_bind (appendRecord_follows low key val _) fun _ => follows_refl _
  · exact fun _ => follows_refl _

theorem tabRefMarkAsDeleted_follows (row : Fin 512) (ref : Fin 16) (keyLen valLen : Nat) : Follows .below
    (tabRefMarkAsDeleted m cfg ptr row ref keyLen valLen) (tabRefMarkAsDeleted m.guarded cfg ptr row ref keyLen valLen) := by
  refine follows_bind (follows_refl _) fun t => follows_bind (writeMem_follows low _ _) fun _ => ?_
  refine follows_bind (follows_when (writeMem_follows low _ _)) fun _ => follows_bind (follows_when ?_) fun _ => follows_refl _
  exact follows_bind (writeMem_follows low _ _) fun _ => follows_refl _

theorem recordLens_follows (pos : Nat) : Follows .below (recordLens m cfg ptr pos) (recordLens m.guarded cfg ptr pos) := by
  refine follows_ite (follows_refl _) (follows_bind (readU32_follows low _) fun keyLen => ?_)
  exact follows_bind (readU32_follows low _) fun valLen => follows_refl _

theorem tabRefCopy_follows (row : Fin 512) (ref : Fin 16) :
    Follows .below (tabRefCopy m cfg win tab ptr row ref) (tabRefCopy m.guarded cfg win tab ptr row ref) := by
  refine follows_bind (follows_refl _) fun tNew => follows_bind (follows_refl _) fun tOld => ?_
  refine follows_bind (recordLens_follows low _) fun lens => follows_bind (readMem_follows low _ _) fun key => ?_
  refine follows_bind (readMem_follows low _ _) fun val => follows_bind (tabAppend_follows low _ _ _) fun newPos => ?_
  exact follows_bind (tabRefMarkAsDeleted_follows low _ _ _ _) fun _ => follows_refl _

theorem tabShrink_follows : Follows .below (tabShrink m cfg win tab) (tabShrink m.guarded cfg win tab) := by
  refine follows_bind (follows_refl _) fun _ => follows_bind (follows_refl _) fun _ => follows_bind (follows_refl _) fun _ => ?_
  refine follows_bind (follows_forM (fun (row, ref) => ?_) allRefs) fun _ => follows_refl _
  exact follows_bind (follows_refl _) fun tOld => follows_when (tabRefCopy_follows low row ref)

theorem partRefOr_follows (e : Stop) (tabOld tabNew : Nat) (row : Fin 512) (ref : Fin 16) : Follows .below
    (partRefOr m cfg e win tabOld tabNew row ref) (partRefOr m.guarded cfg e win tabOld tabNew row ref) := by
  refine follows_bind (follows_refl _) fun tOld => follows_when (follows_bind (follows_refl _) fun w => ?_)
  refine follows_bind (follows_refl _) fun _ => follows_bind (follows_refl _) fun _ => follows_ite ?_ (follows_refl _)
  exact follows_bind (follows_refl _) fun _ => tabRefCopy_follows low row ref

theorem tabPartOr_follows (e : Stop) (tabOld : Nat) :
    Follows .below (tabPartOr m cfg e win tabOld) (tabPartOr m.guarded cfg e win tabOld) := by
  refine follows_bind (follows_refl _) fun w => follows_bind (follows_refl _) fun _ => follows_bind (follows_refl _) fun _ => ?_
  refine follows_bind (follows_refl _) fun _ => follows_bind (follows_refl _) fun _ => follows_bind (follows_refl _) fun _ => ?_
  exact follows_bind (follows_forM (fun (row, ref) => partRefOr_follows low e _ _ row ref) allRefs) fun _ =>
    tabShrink_follows low

end Operations

section Calls

variable {μ : Type} {m : Mapping μ} {cfg : Config} {slot : Slot} {tab : Nat} (low : m.lowest ≤ dataOffset)
include low

theorem putSectionOr_follows (e : Stop) (val : PutVal) :
    Follows .below (putSectionOr m cfg e val) (putSectionOr m.guarded cfg e val) := by
  refine follows_bind (follows_refl _) fun tls => follows_bind (follows_refl _) fun w => ?_
  refine follows_bind (follows_refl _) fun _ => follows_bind (follows_refl _) fun t => ?_
  split
  · refine follows_bind (tabAppend_follows low _ _ _) fun pos => follows_bind (follows_refl _) fun _ => ?_
    refine follows_bind (follows_refl _) fun t => follows_bind (follows_when (tabShrink_follows low)) fun _ => follows_refl _
  · exact follows_bind (tabPartOr_follows low e _) fun _ => follows_refl _

theorem putSection_follows (val : PutVal) : Follows .below (putSection m cfg val) (putSection m.guarded cfg val) := by
  rw [← putSectionOr_internal, ← putSectionOr_internal]
  exact putSectionOr_follows low .internal val

theorem putLoop_follows (val : PutVal) (fuel : Nat) :
    Follows .below (putLoop m cfg val fuel) (putLoop m.guarded cfg val fuel) := by
  induction fuel with
  | zero => exact follows_refl _
  | succ fuel ih => exact follows_bind (putSection_follows low val) fun done => follows_ite (follows_refl _) ih

theorem loadRecord_follows (win : Fin 256) (pos : Nat) :
    Follows .below (loadRecord m cfg win tab pos) (loadRecord m.guarded cfg win tab pos) := by
  refine follows_bind (follows_refl _) fun t => follows_bind (follows_refl _) fun _ => ?_
  exact follows_bind (access_follows low pos 1) fun _ => follows_bind (recordLens_follows low pos) fun lens => follows_refl _

theorem searchRow_follows (rnd : Nat) (refs : List (Fin 16)) :
    Follows .below (searchRow m cfg slot tab rnd refs) (searchRow m.guarded cfg slot tab rnd refs) := by
  induction refs with
  | nil => exact follows_refl _
  | cons ref rest ih =>
    refine follows_bind (follows_refl _) fun t => follows_ite ?_ ih
    refine follows_bind (loadRecord_follows low slot.win _) fun lens => follows_bind (follows_refl _) fun tls => ?_
    refine follows_ite (follows_bind (follows_refl _) fun _ => ih) (follows_bind (readMem_follows low _ _) fun key => ?_)
    exact follows_ite (follows_bind (follows_refl _) fun _ => ih) (follows_refl _)

theorem findKeyOrUid_follows (uid : Nat) :
    Follows .below (findKeyOrUid m cfg uid slot tab) (findKeyOrUid m.guarded cfg uid slot tab) := by
  refine follows_ite ?_ ?_
  · refine follows_bind (follows_refl _) fun _ => follows_bind (follows_refl _) fun tls => ?_
    exact follows_bind (searchRow_follows low _ _) fun found => follows_refl _
  · refine follows_bind (follows_refl _) fun t => follows_ite ?_ (follows_refl _)
    exact follows_bind (loadRecord_follows low slot.win _) fun lens => follows_refl _

theorem considerTabShrink_follows (win : Fin 256) :
    Follows .below (considerTabShrink m cfg win tab) (considerTabShrink m.guarded cfg win tab) :=
  follows_bind (follows_refl _) fun _ => follows_when (tabShrink_follows low)

theorem copyVal_follows (win : Fin 256) (valLen : Nat) :
    Follows .below (copyVal m win tab valLen) (copyVal m.guarded win tab valLen) :=
  follows_bind (follows_refl _) fun _ => follows_bind (readMem_follows low _ _) fun _ => follows_refl _

theorem deleteFound_follows (record : Found) :
    Follows .below (deleteFound m cfg slot tab record) (deleteFound m.guarded cfg slot tab record) :=
  follows_bind (tabRefMarkAsDeleted_follows low _ _ _ _) fun _ => follows_refl _

theorem deleteKey_follows (record : Found) :
    Follows .below (deleteKey m cfg slot tab record) (deleteKey m.guarded cfg slot tab record) := by
  refine follows_bind (follows_refl _) fun tls => follows_ite (follows_bind (readU32_follows low _) fun ttl => ?_) ?_
  · refine follows_ite (follows_refl _) (follows_bind (copyVal_follows low _ _) fun _ => ?_)
    exact follows_bind (deleteFound_follows low record) fun _ => follows_refl _
  · exact follows_bind (deleteFound_follows low record) fun _ => follows_refl _

theorem actOn_follows (record : Found) (what : FindKeyAnd) :
    Follows .below (actOn m cfg slot tab record what) (actOn m.guarded cfg slot tab record what) := by
  cases what with
  | addr => exact follows_refl _
  | copyKey =>
    refine follows_bind (follows_bind (follows_refl _) fun tls => ?_) fun _ => ?_
    · exact follows_bind (readMem_follows low _ _) fun key => follows_refl _
    · exact follows_bind (considerTabShrink_follows low _) fun _ => follows_refl _
  | copyVal =>
    exact follows_bind (copyVal_follows low _ _) fun _ => follows_bind (considerTabShrink_follows low _) fun _ => follows_refl _
  | atomAdd =>
    refine follows_ite (follows_bind (follows_refl _) fun tls => ?_) (follows_refl _)
    refine follows_bind (readMem_follows low _ _) fun bytes => ?_
    exact follows_bind (writeMem_follows low _ _) fun _ => follows_refl _
  | delete => exact deleteKey_follows low record
  | update =>
    refine follows_bind (follows_bind (follows_refl _) fun _ => follows_bind (follows_refl _) fun tls => ?_) fun _ => follows_refl _
    refine follows_bind (follows_refl _) fun _ => follows_bind (follows_when (writeMem_follows low _ _)) fun _ => follows_refl _

theorem findKeyInternal_follows (uid : Nat) (what : FindKeyAnd) :
    Follows .below (findKeyInternal m cfg uid what) (findKeyInternal m.guarded cfg uid what) := by
  refine follows_bind (follows_refl _) fun tls => follows_bind (follows_refl _) fun w => ?_
  refine follows_bind (follows_refl _) fun _ => follows_bind (findKeyOrUid_follows low uid) fun found => ?_
  cases found with
  | none => exact follows_refl _
  | some record => exact actOn_follows low record what

theorem addKeyVal_follows (add : Nat) : Follows .below (addKeyVal m cfg add) (addKeyVal m.guarded cfg add) := by
  refine follows_bind (follows_bind (follows_refl _) fun _ => findKeyInternal_follows low _ _) fun result => ?_
  refine follows_ite ?_ (follows_ite ?_ (follows_refl _))
  · refine follows_bind (follows_refl _) fun tls => follows_bind (follows_when ?_) fun _ => follows_refl _
    exact follows_bind (findKeyInternal_follows low _ _) fun _ => follows_refl _
  · exact follows_bind (putLoop_follows low _ _) fun _ => follows_refl _

theorem Op.run_follows (op : Op) : Follows .below (op.run m cfg) (op.run m.guarded cfg) := by
  cases op with
  | getVal => exact findKeyInternal_follows low _ _
  | getKey => exact findKeyInternal_follows low _ _
  | delete => exact findKeyInternal_follows low _ _
  | update val => exact follows_bind (follows_refl _) fun _ => findKeyInternal_follows low _ _
  | add amount => exact follows_bind (follows_refl _) fun _ => findKeyInternal_follows low _ _

theorem Call.run_follows (hashOf : List UInt8 → Hash) (call : Call) :
    Follows .below (call.run m cfg hashOf) (call.run m.guarded cfg hashOf) := by
  cases call with
  | put key val => exact follows_bind (follows_refl _) fun _ => putLoop_follows low _ _
  | find key op => exact follows_bind (follows_refl _) fun _ => Op.run_follows low op
  | uidVal uid => exact findKeyInternal_follows low _ _
  | uidKey uid => exact findKeyInternal_follows low _ _

theorem runCalls_follows (hashOf : List UInt8 → Hash) (calls : List Call) :
    Follows .below (runCalls m cfg hashOf calls) (runCalls m.guarded cfg hashOf calls) := by
  induction calls with
  | nil => exact follows_refl _
  | cons call rest ih =>
    refine follows_bind (Call.run_follows low hashOf call) fun code => follows_bind (follows_refl _) fun tls => ?_
    exact follows_bind ih fun answers => follows_refl _

theorem Work.runOr_follows (e : Stop) (work : Work) : Follows .below (work.runOr m cfg e) (work.runOr m.guarded cfg e) := by
  cases work with
  | put val => exact follows_bind (putSectionOr_follows low e val) fun done => follows_refl _
  | find uid what => exact follows_bind (findKeyInternal_follows low uid what) fun result => follows_refl _

theorem runSectionsOr_follows (e : Stop) (switch : Nat → μ → μ) (sections : List Section) :
    Follows .below (runSectionsOr m cfg e switch sections) (runSectionsOr m.guarded cfg e switch sections) := by
  induction sections with
  | nil => exact follows_refl _
  | cons part rest ih =>
    refine follows_bind (follows_refl _) fun _ => follows_bind (follows_refl _) fun _ => ?_
    refine follows_bind (Work.runOr_follows low e part.work) fun result => follows_bind (follows_refl _) fun tls => ?_
    exact follows_bind ih fun results => follows_refl _

theorem runSections_follows (switch : Nat → μ → μ) (sections : List Section) :
    Follows .below (runSections m cfg switch sections) (runSections m.guarded cfg switch sections) := by
  rw [← runSectionsOr_internal, ← runSectionsOr_internal]
  exact runSectionsOr_follows low .internal switch sections

end Calls

end SharedHashFile.Store
