import SharedHashFile.Store.Clients
import SharedHashFile.Store.Sections

namespace SharedHashFile.Store

open Program

/-- What `statvfs` answers is up to the system: no operation changes it. -/
abbrev State.Answers {μ : Type} (vfs : Nat → Nat) (s : State μ) : Prop := s.shared.vfs = vfs

section Primitives

variable {μ α : Type} {m : Mapping μ} {vfs : Nat → Nat} {ptr : Ptr}

theorem onMap_answers (x : Program Stop μ α) : Keeps (State.Answers vfs) (onMap x) := fun _ answers => answers

theorem onShared_answers {x : Program Stop Shared α} (same : ∀ shared, (x shared).state.vfs = shared.vfs) :
    Keeps (State.Answers vfs) (onShared x : Operation μ α) := fun s answers => (same s.shared).trans answers

theorem getTls_answers : Keeps (State.Answers vfs) (getTls : Operation μ Tls) := onShared_answers fun _ => rfl

theorem getWin_answers (win : Fin 256) : Keeps (State.Answers vfs) (getWin win : Operation μ Win) :=
  onShared_answers fun _ => rfl

theorem modifyTls_answers (f : Tls → Tls) : Keeps (State.Answers vfs) (modifyTls f : Operation μ Unit) :=
  onShared_answers fun _ => rfl

theorem modifyWin_answers (win : Fin 256) (f : Win → Win) :
    Keeps (State.Answers vfs) (modifyWin win f : Operation μ Unit) := onShared_answers fun _ => rfl

theorem tabAt_answers : Keeps (State.Answers vfs) (tabAt m ptr) :=
  keeps_bind (onMap_answers _) fun _ => keeps_pure _

theorem modifyTab_answers (f : Tab → Tab) : Keeps (State.Answers vfs) (modifyTab m ptr f) :=
  keeps_bind (onMap_answers _) fun _ => onMap_answers _

theorem access_answers (off len : Nat) : Keeps (State.Answers vfs) (access m ptr off len) :=
  keeps_bind (onMap_answers _) fun _ => keeps_bind (keeps_check _ _) fun _ => keeps_check _ _

theorem readMem_answers (off len : Nat) : Keeps (State.Answers vfs) (readMem m ptr off len) :=
  keeps_bind (access_answers off len) fun _ => keeps_bind tabAt_answers fun _ => keeps_pure _

theorem readU32_answers (off : Nat) : Keeps (State.Answers vfs) (readU32 m ptr off) :=
  keeps_bind (readMem_answers off 4) fun _ => keeps_pure _

theorem writeMem_answers (off : Nat) (bytes : List UInt8) : Keeps (State.Answers vfs) (writeMem m ptr off bytes) :=
  keeps_bind (access_answers off _) fun _ => modifyTab_answers _

theorem writeVal_answers (off : Nat) (val : PutVal) : Keeps (State.Answers vfs) (writeVal m ptr off val) := by
  cases val with
  | copy bytes => exact writeMem_answers off bytes
  | reserve len => exact keeps_pure ()

end Primitives

section Tables

variable {μ : Type} {m : Mapping μ} {cfg : Config} {vfs : Nat → Nat} {ptr : Ptr} {win : Fin 256} {tab : Nat}

theorem growTab_answers (dataNeeded : Nat) : Keeps (State.Answers vfs) (growTab m cfg win tab dataNeeded) := by
  refine keeps_bind tabAt_answers fun t => keeps_bind (onShared_answers fun _ => rfl) fun available => ?_
  exact keeps_bind (keeps_check _ _) fun _ => keeps_bind (keeps_ask _) fun _ => onMap_answers _

theorem tabAppend_answers (key : List UInt8) (val : PutVal) (pos : Nat) :
    Keeps (State.Answers vfs) (tabAppend m cfg win tab key val pos) := by
  refine keeps_bind (keeps_ask _) fun _ => keeps_bind tabAt_answers fun t => keeps_bind (keeps_ite (fun _ => ?_) fun _ => ?_) ?_
  · refine keeps_bind ?_ fun _ => keeps_pure _
    refine keeps_bind (readU32_answers _) fun next => keeps_bind (modifyTab_answers _) fun _ => ?_
    refine keeps_bind (writeMem_answers _ _) fun _ => keeps_bind (writeMem_answers _ _) fun _ => ?_
    exact keeps_bind (writeVal_answers _ _) fun _ => modifyTab_answers _
  · refine keeps_bind (keeps_ask _) fun _ => keeps_bind (keeps_when fun _ => growTab_answers _) fun _ => ?_
    refine keeps_bind (keeps_bind tabAt_answers fun t => ?_) fun _ => keeps_pure _
    refine keeps_bind (keeps_check _ _) fun _ => keeps_bind (keeps_check _ _) fun _ => ?_
    refine keeps_bind (writeMem_answers _ _) fun _ => keeps_bind (keeps_when fun _ => ?_) fun _ => ?_
    · exact keeps_bind (writeMem_answers _ _) fun _ => writeMem_answers _ _
    · exact keeps_bind (writeMem_answers _ _) fun _ => keeps_bind (writeVal_answers _ _) fun _ => modifyTab_answers _
  · exact fun _ => keeps_bind (modifyTab_answers _) fun _ => keeps_pure _

theorem tabRefMarkAsDeleted_answers (row : Fin 512) (ref : Fin 16) (keyLen valLen : Nat) :
    Keeps (State.Answers vfs) (tabRefMarkAsDeleted m cfg ptr row ref keyLen valLen) := by
  refine keeps_bind tabAt_answers fun t => keeps_bind (writeMem_answers _ _) fun _ => ?_
  refine keeps_bind (keeps_when fun _ => writeMem_answers _ _) fun _ => keeps_bind (keeps_when fun _ => ?_) fun _ => ?_
  · exact keeps_bind (writeMem_answers _ _) fun _ => modifyTab_answers _
  · exact modifyTab_answers _

theorem recordLens_answers (pos : Nat) : Keeps (State.Answers vfs) (recordLens m cfg ptr pos) := by
  refine keeps_ite (fun _ => keeps_pure _) fun _ => ?_
  exact keeps_bind (readU32_answers _) fun keyLen => keeps_bind (readU32_answers _) fun valLen => keeps_pure _

theorem tabRefCopy_answers (row : Fin 512) (ref : Fin 16) :
    Keeps (State.Answers vfs) (tabRefCopy m cfg win tab ptr row ref) := by
  refine keeps_bind tabAt_answers fun tNew => keeps_bind tabAt_answers fun tOld => ?_
  refine keeps_bind (recordLens_answers _) fun lens => keeps_bind (readMem_answers _ _) fun key => ?_
  refine keeps_bind (readMem_answers _ _) fun val => keeps_bind (tabAppend_answers _ _ _) fun newPos => ?_
  exact keeps_bind (tabRefMarkAsDeleted_answers _ _ _ _) fun _ => modifyTab_answers _

theorem tabShrink_answers : Keeps (State.Answers vfs) (tabShrink m cfg win tab) := by
  refine keeps_bind (modifyWin_answers _ _) fun _ => keeps_bind (onMap_answers _) fun _ => ?_
  refine keeps_bind (onMap_answers _) fun _ => keeps_bind (keeps_forM (fun (row, ref) => ?_) _) fun _ => onMap_answers _
  exact keeps_bind tabAt_answers fun tOld => keeps_when fun _ => tabRefCopy_answers row ref

theorem partRedirects_answers (tabOld tabNew : Nat) (items : List (Fin 2048)) (tabSwitch : Bool) :
    Keeps (State.Answers vfs) (partRedirects win tabOld tabNew items tabSwitch : Operation μ Unit) := by
  induction items generalizing tabSwitch with
  | nil => exact keeps_pure ()
  | cons tab2 rest ih =>
    refine keeps_bind (getWin_answers win) fun w => keeps_bind (keeps_check _ _) fun _ => keeps_ite (fun _ => ?_) fun _ => ih _
    exact keeps_bind (modifyWin_answers _ _) fun _ => ih _

theorem tabPart_answers (tabOld : Nat) : Keeps (State.Answers vfs) (tabPart m cfg win tabOld) := by
  refine keeps_bind (getWin_answers win) fun w => keeps_bind (onMap_answers _) fun _ => keeps_bind (onMap_answers _) fun _ => ?_
  refine keeps_bind (modifyWin_answers _ _) fun _ => keeps_bind (keeps_check _ _) fun _ => ?_
  refine keeps_bind (partRedirects_answers _ _ _ _) fun _ => keeps_bind (keeps_forM (fun (row, ref) => ?_) _) fun _ =>
    tabShrink_answers
  refine keeps_bind tabAt_answers fun tOld => keeps_when fun _ => keeps_bind (getWin_answers win) fun w => ?_
  refine keeps_bind (keeps_check _ _) fun _ => keeps_bind (keeps_check _ _) fun _ => keeps_ite (fun _ => ?_) fun _ =>
    modifyWin_answers _ _
  exact keeps_bind (modifyWin_answers _ _) fun _ => tabRefCopy_answers row ref

end Tables

section Calls

variable {μ : Type} {m : Mapping μ} {cfg : Config} {vfs : Nat → Nat} {slot : Slot} {win : Fin 256} {tab : Nat}

theorem putSection_answers (val : PutVal) : Keeps (State.Answers vfs) (putSection m cfg val) := by
  refine keeps_bind getTls_answers fun tls => keeps_bind (getWin_answers _) fun w => keeps_bind (onMap_answers _) fun _ => ?_
  refine keeps_bind tabAt_answers fun t => ?_
  split
  · refine keeps_bind (tabAppend_answers _ _ _) fun pos => keeps_bind (modifyTab_answers _) fun _ => ?_
    refine keeps_bind tabAt_answers fun t => keeps_bind (keeps_when fun _ => tabShrink_answers) fun _ => ?_
    exact keeps_bind (modifyTls_answers _) fun _ => keeps_pure _
  · exact keeps_bind (tabPart_answers _) fun _ => keeps_pure _

theorem putLoop_answers (val : PutVal) (fuel : Nat) : Keeps (State.Answers vfs) (putLoop m cfg val fuel) := by
  induction fuel with
  | zero => exact keeps_stop _
  | succ fuel ih => exact keeps_bind (putSection_answers val) fun done => keeps_ite (fun _ => keeps_pure _) fun _ => ih

theorem loadRecord_answers (pos : Nat) : Keeps (State.Answers vfs) (loadRecord m cfg win tab pos) := by
  refine keeps_bind tabAt_answers fun t => keeps_bind (keeps_check _ _) fun _ => keeps_bind (access_answers _ _) fun _ => ?_
  refine keeps_bind (recordLens_answers _) fun lens => keeps_bind (keeps_check _ _) fun _ => ?_
  exact keeps_bind (keeps_check _ _) fun _ => keeps_bind (modifyTls_answers _) fun _ => keeps_pure _

theorem searchRow_answers (rnd : Nat) (refs : List (Fin 16)) :
    Keeps (State.Answers vfs) (searchRow m cfg slot tab rnd refs) := by
  induction refs with
  | nil => exact keeps_pure _
  | cons ref rest ih =>
    refine keeps_bind tabAt_answers fun t => keeps_ite (fun _ => ?_) fun _ => ih
    refine keeps_bind (loadRecord_answers _) fun lens => keeps_bind getTls_answers fun tls => keeps_ite (fun _ => ?_) fun _ => ?_
    · exact keeps_bind (modifyWin_answers _ _) fun _ => ih
    · refine keeps_bind (readMem_answers _ _) fun key => keeps_ite (fun _ => ?_) fun _ => keeps_pure _
      exact keeps_bind (modifyWin_answers _ _) fun _ => ih

theorem findKeyOrUid_answers (uid : Nat) : Keeps (State.Answers vfs) (findKeyOrUid m cfg uid slot tab) := by
  refine keeps_ite (fun _ => ?_) fun _ => ?_
  · refine keeps_bind (modifyTls_answers _) fun _ => keeps_bind getTls_answers fun tls => ?_
    refine keeps_bind (searchRow_answers _ _) fun found => ?_
    cases found with
    | none => exact keeps_pure _
    | some record => exact keeps_bind (modifyTls_answers _) fun _ => keeps_pure _
  · refine keeps_bind tabAt_answers fun t => keeps_ite (fun _ => ?_) fun _ => keeps_pure _
    exact keeps_bind (loadRecord_answers _) fun lens => keeps_pure _

theorem copyVal_answers (valLen : Nat) : Keeps (State.Answers vfs) (copyVal m win tab valLen) :=
  keeps_bind getTls_answers fun _ => keeps_bind (readMem_answers _ _) fun _ => modifyTls_answers _

theorem considerTabShrink_answers : Keeps (State.Answers vfs) (considerTabShrink m cfg win tab) :=
  keeps_bind tabAt_answers fun _ => keeps_when fun _ => tabShrink_answers

theorem deleteFound_answers (record : Found) : Keeps (State.Answers vfs) (deleteFound m cfg slot tab record) :=
  keeps_bind (tabRefMarkAsDeleted_answers _ _ _ _) fun _ => modifyTls_answers _

theorem actOn_answers (record : Found) (what : FindKeyAnd) :
    Keeps (State.Answers vfs) (actOn m cfg slot tab record what) := by
  cases what with
  | addr => exact keeps_pure _
  | copyKey =>
    refine keeps_bind (keeps_bind getTls_answers fun tls => ?_) fun _ => keeps_bind considerTabShrink_answers fun _ => keeps_pure _
    exact keeps_bind (readMem_answers _ _) fun key => modifyTls_answers _
  | copyVal => exact keeps_bind (copyVal_answers _) fun _ => keeps_bind considerTabShrink_answers fun _ => keeps_pure _
  | atomAdd =>
    refine keeps_ite (fun _ => keeps_bind getTls_answers fun tls => ?_) fun _ => keeps_pure _
    refine keeps_bind (readMem_answers _ _) fun bytes => keeps_bind (writeMem_answers _ _) fun _ => ?_
    exact keeps_bind (modifyTls_answers _) fun _ => keeps_pure _
  | delete =>
    refine keeps_bind getTls_answers fun tls => keeps_ite (fun _ => keeps_bind (readU32_answers _) fun ttl => ?_) fun _ => ?_
    · refine keeps_ite (fun _ => keeps_bind (modifyTls_answers _) fun _ => keeps_pure _) fun _ => ?_
      exact keeps_bind (copyVal_answers _) fun _ => keeps_bind (deleteFound_answers record) fun _ => keeps_pure _
    · exact keeps_bind (deleteFound_answers record) fun _ => keeps_pure _
  | update =>
    refine keeps_bind (keeps_bind (modifyTls_answers _) fun _ => keeps_bind getTls_answers fun tls => ?_) fun _ => keeps_pure _
    refine keeps_bind (keeps_check _ _) fun _ => keeps_bind (keeps_when fun _ => writeMem_answers _ _) fun _ => ?_
    exact keeps_bind (modifyTls_answers _) fun _ => keeps_pure _

theorem findKeyInternal_answers (uid : Nat) (what : FindKeyAnd) :
    Keeps (State.Answers vfs) (findKeyInternal m cfg uid what) := by
  refine keeps_bind getTls_answers fun tls => keeps_bind (getWin_answers _) fun w => keeps_bind (onMap_answers _) fun _ => ?_
  refine keeps_bind (findKeyOrUid_answers uid) fun found => ?_
  cases found with
  | none => exact keeps_bind (modifyTls_answers _) fun _ => keeps_pure _
  | some record => exact actOn_answers record what

theorem Op.run_answers (op : Op) : Keeps (State.Answers vfs) (op.run m cfg) := by
  cases op with
  | getVal => exact findKeyInternal_answers _ _
  | getKey => exact findKeyInternal_answers _ _
  | delete => exact findKeyInternal_answers _ _
  | update val => exact keeps_bind (modifyTls_answers _) fun _ => findKeyInternal_answers _ _
  | add amount => exact keeps_bind (modifyTls_answers _) fun _ => findKeyInternal_answers _ _

theorem Call.run_answers (hashOf : List UInt8 → Hash) (call : Call) :
    Keeps (State.Answers vfs) (call.run m cfg hashOf) := by
  cases call with
  | put key val => exact keeps_bind (modifyTls_answers _) fun _ => putLoop_answers _ _
  | find key op => exact keeps_bind (modifyTls_answers _) fun _ => op.run_answers
  | uidVal uid => exact findKeyInternal_answers _ _
  | uidKey uid => exact findKeyInternal_answers _ _

theorem runCalls_answers (hashOf : List UInt8 → Hash) (calls : List Call) :
    Keeps (State.Answers vfs) (runCalls m cfg hashOf calls) := by
  induction calls with
  | nil => exact keeps_pure _
  | cons call rest ih =>
    refine keeps_bind (call.run_answers hashOf) fun code => keeps_bind getTls_answers fun tls => ?_
    exact keeps_bind ih fun _ => keeps_pure _

theorem Work.run_answers (work : Work) : Keeps (State.Answers vfs) (work.run m cfg) := by
  cases work with
  | put val => exact keeps_bind (putSection_answers val) fun _ => keeps_pure _
  | find uid what => exact keeps_bind (findKeyInternal_answers uid what) fun _ => keeps_pure _

theorem runSections_answers (switch : Nat → μ → μ) (sections : List Section) :
    Keeps (State.Answers vfs) (runSections m cfg switch sections) := by
  induction sections with
  | nil => exact keeps_pure _
  | cons part rest ih =>
    refine keeps_bind (onMap_answers _) fun _ => keeps_bind (modifyTls_answers _) fun _ => ?_
    refine keeps_bind part.work.run_answers fun result => keeps_bind getTls_answers fun tls => ?_
    exact keeps_bind ih fun _ => keeps_pure _

end Calls

end SharedHashFile.Store
