import SharedHashFile.Store.Tables
import SharedHashFile.Store.TableInvariant

namespace SharedHashFile.Store

open ByteMemory Program LinkedList

namespace Tables

variable {T : Tables} {ptr other : Ptr} {file : File}

@[simp] theorem fileAt_setFile (T : Tables) (file : File) (ptr : Ptr) :
    (T.setFile file ptr).fileAt ptr = some file := by
  cases ptr with
  | tab win tab => simp [setFile, fileAt]
  | old => rfl

theorem fileAt_setFile_of_ne (file : File) (away : other ≠ ptr) :
    (T.setFile file ptr).fileAt other = T.fileAt other := by
  cases ptr with
  | tab win tab =>
    cases other with
    | tab win' tab' =>
      simp only [setFile, fileAt, set_table]
      rw [if_neg]
      rintro ⟨rfl, rfl⟩
      exact away rfl
    | old => rfl
  | old =>
    cases other with
    | tab win' tab' => rfl
    | old => exact absurd rfl away

theorem setFile_setFile (T : Tables) (file file' : File) (ptr : Ptr) :
    (T.setFile file ptr).setFile file' ptr = T.setFile file' ptr := by
  cases ptr with
  | tab win tab => simp only [setFile, set, Function.update_self, Function.update_idem]
  | old => rfl

end Tables

/-- A table is there, at least with its header and rows. -/
structure Held (t : State Tables) (ptr : Ptr) (file : File) : Prop where
  there : t.map.fileAt ptr = some file
  size : dataOffset ≤ file.size

def State.setFile (t : State Tables) (ptr : Ptr) (file : File) : State Tables :=
  { t with map := t.map.setFile file ptr }

@[simp] theorem State.setFile_shared (t : State Tables) (ptr : Ptr) (file : File) :
    (t.setFile ptr file).shared = t.shared := rfl

@[simp] theorem State.setFile_setFile (t : State Tables) (ptr : Ptr) (file file' : File) :
    (t.setFile ptr file).setFile ptr file' = t.setFile ptr file' :=
  congrArg (State.mk t.shared) (Tables.setFile_setFile t.map file file' ptr)

theorem State.fileAt_setFile (t : State Tables) (ptr : Ptr) (file : File) :
    (t.setFile ptr file).map.fileAt ptr = some file := Tables.fileAt_setFile _ _ _

theorem State.held (t : State Tables) (ptr : Ptr) {file : File} (size : dataOffset ≤ file.size) :
    Held (t.setFile ptr file) ptr file := ⟨Tables.fileAt_setFile _ _ _, size⟩

theorem Held.set {t : State Tables} {ptr : Ptr} {file file' : File} (held : Held t ptr file)
    (size : file'.size = file.size) : Held (t.setFile ptr file') ptr file' :=
  ⟨Tables.fileAt_setFile _ _ _, size ▸ held.size⟩

theorem Held.setFile_self {t : State Tables} {ptr : Ptr} {file : File} (held : Held t ptr file) :
    t.setFile ptr file = t := by
  refine congrArg (State.mk t.shared) ?_
  have there := held.there
  cases ptr with
  | tab win tab =>
    refine Tables.ext (funext fun win' => funext fun tab' => ?_) rfl
    simp only [Tables.setFile, Tables.set_table]
    split
    · rename_i here
      rw [here.1, here.2]
      exact there.symm
    · rfl
  | old => exact Tables.ext rfl there.symm

def File.withData (file : File) (data : Memory) : File := { file with tab := { file.tab with data := data } }

section WithData

variable (file : File) (data data' : Memory)

@[simp] theorem File.withData_size : (file.withData data).size = file.size := rfl
@[simp] theorem File.withData_data : (file.withData data).tab.data = data := rfl
@[simp] theorem File.withData_used : (file.withData data).tab.tabUsed = file.tab.tabUsed := rfl
@[simp] theorem File.withData_self : file.withData file.tab.data = file := rfl
@[simp] theorem File.withData_withData : (file.withData data).withData data' = file.withData data' := rfl

end WithData

theorem Held.setData {t : State Tables} {ptr : Ptr} {file : File} (held : Held t ptr file) (data : Memory) :
    Held (t.setFile ptr (file.withData data)) ptr (file.withData data) := held.set rfl

/-- What a step leaves alone: the tables it does not touch, and the redirections. -/
structure Frame (touched : Ptr → Prop) (t t' : State Tables) : Prop where
  files : ∀ ptr, ¬ touched ptr → t'.map.fileAt ptr = t.map.fileAt ptr
  tabs : ∀ win, (t'.shared.wins win).tabs = (t.shared.wins win).tabs
  used : ∀ win, (t'.shared.wins win).tabsUsed = (t.shared.wins win).tabsUsed
  parted : ∀ win, (t'.shared.wins win).tabsParted = (t.shared.wins win).tabsParted

section Frames

variable {touched touched' : Ptr → Prop} {t t' t'' : State Tables} {ptr : Ptr} {file : File}

theorem Frame.refl (t : State Tables) : Frame touched t t :=
  ⟨fun _ _ => rfl, fun _ => rfl, fun _ => rfl, fun _ => rfl⟩

theorem Frame.trans (first : Frame touched t t') (second : Frame touched t' t'') : Frame touched t t'' :=
  ⟨fun ptr away => (second.files ptr away).trans (first.files ptr away),
    fun win => (second.tabs win).trans (first.tabs win), fun win => (second.used win).trans (first.used win),
    fun win => (second.parted win).trans (first.parted win)⟩

theorem Frame.mono (frame : Frame touched t t') (more : ∀ ptr, touched ptr → touched' ptr) :
    Frame touched' t t' :=
  ⟨fun ptr away => frame.files ptr fun was => away (more ptr was), frame.tabs, frame.used, frame.parted⟩

theorem Frame.setFile (t : State Tables) (ptr : Ptr) (file : File) : Frame (· = ptr) t (t.setFile ptr file) :=
  ⟨fun _ away => Tables.fileAt_setFile_of_ne file away, fun _ => rfl, fun _ => rfl, fun _ => rfl⟩

theorem Frame.held (frame : Frame touched t t') (held : Held t ptr file) (away : ¬ touched ptr) :
    Held t' ptr file := ⟨(frame.files ptr away).trans held.there, held.size⟩

end Frames

section Runs

variable {t : State Tables} {ptr : Ptr} {file : File}

theorem viewAt_run (held : Held t ptr file) :
    viewAt direct ptr t = ⟨.ok ⟨file.tab, file.size⟩, t, 0⟩ := by
  have look : direct.look t.map ptr = some ⟨file.tab, file.size⟩ := by
    change (t.map.fileAt ptr).map _ = _
    rw [held.there]
    rfl
  simp only [viewAt, onMap, zoom, look, if_pos held.size]

theorem tabAt_run (held : Held t ptr file) : tabAt direct ptr t = ⟨.ok file.tab, t, 0⟩ := bind_ok (viewAt_run held)

theorem modifyTab_run (held : Held t ptr file) (f : Tab → Tab) :
    modifyTab direct ptr f t = ⟨.ok (), t.setFile ptr { file with tab := f file.tab }, 0⟩ := by
  have store : direct.store t.map ptr (f file.tab) = t.map.setFile { file with tab := f file.tab } ptr := by
    change Tables.store t.map ptr (f file.tab) = _
    simp only [Tables.store, held.there]
  refine (bind_ok (viewAt_run held)).trans ?_
  change Outcome.mk _ { t with map := direct.store t.map ptr (f file.tab) } 0 = _
  rw [store]
  rfl

theorem access_run {off len : Nat} (held : Held t ptr file)
    (inside : len = 0 ∨ dataOffset ≤ off ∧ off + len ≤ file.size) :
    access direct ptr off len t = ⟨.ok (), t, 0⟩ := by
  have above : len = 0 ∨ direct.lowest ≤ off := inside.imp_right And.left
  rw [access, bind_ok (viewAt_run held), bind_ok (check_true above _ _)]
  exact check_true (inside.imp_right And.right) _ _

theorem readMem_run {off len : Nat} (held : Held t ptr file)
    (inside : len = 0 ∨ dataOffset ≤ off ∧ off + len ≤ file.size) :
    readMem direct ptr off len t = ⟨.ok (read file.tab.data off len), t, 0⟩ := by
  rw [readMem, bind_ok (access_run held inside), bind_ok (tabAt_run held), Tab.read_bytes (inside.imp_right And.left)]
  rfl

theorem writeMem_run {off : Nat} {bytes : List UInt8} (held : Held t ptr file)
    (inside : bytes.length = 0 ∨ dataOffset ≤ off ∧ off + bytes.length ≤ file.size) :
    writeMem direct ptr off bytes t =
      ⟨.ok (), t.setFile ptr (file.withData (write file.tab.data off bytes)), 0⟩ := by
  rw [writeMem, bind_ok (access_run held inside), modifyTab_run held, Tab.writeBytes_data (inside.imp_right And.left)]
  rfl

theorem readU32_run {off : Nat} (held : Held t ptr file) (low : dataOffset ≤ off) (high : off + 4 ≤ file.size) :
    readU32 direct ptr off t = ⟨.ok (u32At file.tab.data off), t, 0⟩ := by
  rw [readU32, bind_ok (readMem_run held (.inr ⟨low, high⟩))]
  rfl

theorem writeU32_run {off value : Nat} (held : Held t ptr file) (low : dataOffset ≤ off)
    (high : off + 4 ≤ file.size) : writeU32 direct ptr off value t =
      ⟨.ok (), t.setFile ptr (file.withData (write file.tab.data off (leBytes 4 value))), 0⟩ :=
  writeMem_run held (.inr ⟨low, by rw [leBytes_length]; exact high⟩)

theorem writeU08_run {off : Nat} {value : UInt8} (held : Held t ptr file) (low : dataOffset ≤ off)
    (high : off + 1 ≤ file.size) : writeU08 direct ptr off value t =
      ⟨.ok (), t.setFile ptr (file.withData (write file.tab.data off [value])), 0⟩ :=
  writeMem_run held (.inr ⟨low, high⟩)

theorem writeVal_run {off : Nat} {val : PutVal} (held : Held t ptr file) (low : dataOffset ≤ off)
    (high : off + val.len ≤ file.size) : writeVal direct ptr off val t =
      ⟨.ok (), t.setFile ptr (file.withData (writeValAt file.tab.data off val)), 0⟩ := by
  cases val with
  | copy bytes => exact writeMem_run held (.inr ⟨low, high⟩)
  | reserve len =>
    rw [writeValAt, File.withData_self, held.setFile_self]
    rfl

theorem writeLens_run {pos keyLen valLen : Nat} {cfg : Config} (held : Held t ptr file) (low : dataOffset ≤ pos)
    (high : pos + cfg.recordLen keyLen valLen ≤ file.size) :
    (when (cfg.lenLen ≠ 0) do
      writeU32 direct ptr (pos + 1) keyLen
      writeU32 direct ptr (pos + 1 + cfg.lenLen + keyLen) valLen) t =
      ⟨.ok (), t.setFile ptr (file.withData (writeLens cfg file.tab.data pos keyLen valLen)), 0⟩ := by
  unfold writeLens
  by_cases zero : cfg.lenLen = 0
  · rw [when_false (fun lens => lens zero), if_pos zero, File.withData_self, held.setFile_self]
  · have four := cfg.lenLen_cases.resolve_left zero
    unfold Config.recordLen at high
    rw [four] at high
    rw [when_true zero, if_neg zero, four, bind_ok (writeU32_run held (by omega) (by omega))]
    refine (writeU32_run (held.setData _) (by omega) (by rw [File.withData_size]; omega)).trans ?_
    rw [State.setFile_setFile, File.withData_withData, File.withData_data]

/-- What `SHF_TAB_APPEND` makes of a table with room for the record. -/
def appended (cfg : Config) (file : File) (key : List UInt8) (val : PutVal) : File :=
  { file with tab := { file.tab with
    data := writeRecord cfg file.tab.data file.tab.tabUsed key val
    tabUsed := file.tab.tabUsed + cfg.recordLen key.length val.len } }

variable {cfg : Config} {win : Fin 256} {tab : Nat} {key : List UInt8} {val : PutVal}

theorem appendRecord_run (held : Held t (.tab win tab) file) (header : file.tab.tabSize = file.size)
    (low : dataOffset ≤ file.tab.tabUsed) (small : file.size < 2^32)
    (room : file.tab.tabUsed + cfg.recordLen key.length val.len ≤ file.size) :
    appendRecord direct cfg win tab key val (cfg.recordLen key.length val.len) t =
      ⟨.ok (), t.setFile (.tab win tab) (appended cfg file key val), 0⟩ := by
  have whole : (file.tab.tabUsed + cfg.recordLen key.length val.len) % 2^32 =
      file.tab.tabUsed + cfg.recordLen key.length val.len := Nat.mod_eq_of_lt (by omega)
  have room' := room
  unfold Config.recordLen at room'
  have first : (file.tab.tabUsed + 1 + cfg.lenLen + key.length) % 2^32 ≤ file.tab.tabSize := by
    rw [header]
    exact Nat.le_trans (Nat.mod_le _ _) (by omega)
  have second : (file.tab.tabUsed + 1 + cfg.lenLen + key.length + cfg.lenLen + val.len) % 2^32 ≤
      file.tab.tabSize := by
    rw [header]
    exact Nat.le_trans (Nat.mod_le _ _) (by omega)
  let typed := write file.tab.data file.tab.tabUsed [dataTypeStr32]
  have sized := @writeLens_run _ _ _ file.tab.tabUsed key.length val.len cfg (held.setData typed) low room
  rw [appendRecord, bind_ok (tabAt_run held), bind_ok (check_true first _ _), bind_ok (check_true second _ _),
    bind_ok (writeU08_run held low (by omega)), bind_ok sized, State.setFile_setFile, File.withData_withData,
    File.withData_data,
    bind_ok (writeMem_run (held.setData _) (.inr ⟨by omega, by rw [File.withData_size]; omega⟩)),
    State.setFile_setFile, File.withData_withData, File.withData_data,
    bind_ok (writeVal_run (held.setData _) (by omega) (by rw [File.withData_size]; omega)),
    State.setFile_setFile, File.withData_withData, File.withData_data]
  refine (modifyTab_run (held.setData _) _).trans ?_
  rw [State.setFile_setFile, File.withData_used, whole]
  rfl

end Runs

end SharedHashFile.Store
