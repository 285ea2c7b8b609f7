import SharedHashFile.Store.TableRuns

namespace SharedHashFile.Store

open ByteMemory Program LinkedList

/-- How writing a record can end the process: `statvfs` answers less than a growth can take, or growing by nothing
    is asked for. -/
def Refused (cfg : Config) (vfs : Nat → Nat) (e : Stop) : Prop :=
  e = .noSpace ∧ (∃ n, vfs n % 2^64 < 2^33 * cfg.dataNeededFactor) ∨ e = .internal ∧ cfg.dataNeededFactor = 0

section Refusals

variable {cfg : Config} {vfs : Nat → Nat} {e : Stop}

/-- No growth is refused while `statvfs` answers enough. -/
theorem not_refused (ample : ∀ n, 2^33 * cfg.dataNeededFactor ≤ vfs n % 2^64) (grows : cfg.dataNeededFactor ≠ 0) :
    ¬ Refused cfg vfs e := by
  rintro (⟨_, n, short⟩ | ⟨_, zero⟩)
  · exact absurd (ample n) (Nat.not_le.mpr short)
  · exact grows zero

theorem Refused.ne_below (refused : Refused cfg vfs e) : e ≠ .below := by
  rcases refused with ⟨rfl, _⟩ | ⟨rfl, _⟩
  · decide
  · decide

end Refusals

theorem ne_below_of_stops {cfg : Config} {vfs : Nat → Nat} {e : Stop} (stops : e = .tabOverflow ∨ Refused cfg vfs e) :
    e ≠ .below := by
  rcases stops with rfl | refused
  · decide
  · exact refused.ne_below

/-- What is put fits, and a value is reserved in stores with variable lengths only. -/
def Config.Accepts (cfg : Config) (key : List UInt8) (val : PutVal) : Prop :=
  cfg.Fits key val.bytes ∧ (cfg.lenLen = 0 → ∃ bytes, val = .copy bytes)

def asked (t : State Tables) : State Tables :=
  { t with shared := { t.shared with vfsAsked := t.shared.vfsAsked + 1 } }

theorem vfsAvailable_run (t : State Tables) :
    vfsAvailable t = ⟨.ok (t.shared.vfs t.shared.vfsAsked % 2^64), asked t, 0⟩ := rfl

theorem grow_run {t : State Tables} {win : Fin 256} {tab size : Nat} {file : File}
    (there : t.map.fileAt (.tab win tab) = some file) (good : GoodSize size) :
    direct.grow win tab size t.map = ⟨.ok (), t.map.setFile ⟨size, { (file.truncate size).tab with
      tabSize := size }⟩ (.tab win tab), 0⟩ := by
  have low := good.low
  have there : t.map.table win tab = some file := there
  change Tables.grow win tab size t.map = _
  rw [Tables.grow, bind_ok (get_run _), bind_ok (check_true (by omega) _ _), there]
  simp only [Tables.resized, Option.getD_some, good.mod_eq]
  rfl

section Append

variable {cfg : Config} {t : State Tables} {win : Fin 256} {tab : Nat} {file : File} {c : Contents}
  {free : List Nat} {key : List UInt8}

theorem TableOk.held {ptr : Ptr} (ok : TableOk cfg file c free) (there : t.map.fileAt ptr = some file) :
    Held t ptr file := ⟨there, Nat.le_trans ok.used_low ok.used_high⟩

/-- A step which touches one table, and leaves what the caller knows of the rest. -/
structure Moves (ptr : Ptr) (file : File) (t t' : State Tables) : Prop where
  frame : Frame (· = ptr) t t'
  tls : t'.shared.tls = t.shared.tls
  there : t'.map.fileAt ptr = some file

theorem Moves.refl {ptr : Ptr} (there : t.map.fileAt ptr = some file) : Moves ptr file t t :=
  ⟨Frame.refl t, rfl, there⟩

theorem Moves.set (t : State Tables) (ptr : Ptr) (file : File) : Moves ptr file t (t.setFile ptr file) :=
  ⟨Frame.setFile t ptr file, rfl, Tables.fileAt_setFile _ _ _⟩

theorem Moves.trans {ptr : Ptr} {file' : File} {t' t'' : State Tables} (first : Moves ptr file t t')
    (second : Moves ptr file' t' t'') : Moves ptr file' t t'' :=
  ⟨first.frame.trans second.frame, second.tls.trans first.tls, second.there⟩

theorem Moves.asked {ptr : Ptr} (t : State Tables) (there : t.map.fileAt ptr = some file) :
    Moves ptr file t (asked t) := ⟨⟨fun _ _ => rfl, fun _ => rfl, fun _ => rfl, fun _ => rfl⟩, rfl, there⟩

/-- The size of a table file which grows if `len` bytes do not fit behind the `used` ones. -/
def Config.grownFor (cfg : Config) (size used len : Nat) : Nat :=
  if size - used < len then modPage (size + len * cfg.dataNeededFactor) else size

theorem growTab_ends {dataNeeded : Nat} (there : t.map.fileAt (.tab win tab) = some file)
    (ok : TableOk cfg file c free) (needed : dataNeeded < 2^32) :
    Ends sizeLimit (growTab direct cfg win tab dataNeeded)
      (fun _ t' => ∃ size, size = modPage (file.size + dataNeeded * cfg.dataNeededFactor) ∧ GoodSize size ∧
        file.size + dataNeeded * cfg.dataNeededFactor ≤ size ∧
        Moves (.tab win tab) ⟨size, { file.tab with tabSize := size }⟩ t t') (fun e t' => Refused cfg t'.shared.vfs e) t := by
  refine ends_after (tabAt_run (ok.held there)) ?_
  rw [ok.header]
  refine ends_after (vfsAvailable_run t) ?_
  refine ends_bind (ends_check (fun _ => ?_) fun short => .inl ⟨rfl, t.shared.vfsAsked, ?_⟩)
  rotate_left
  · exact Nat.lt_of_lt_of_le (Nat.not_le.mp short) (growth_le ok.size needed cfg.dataNeededFactor_lt)
  refine ends_bind (ends_ask fun below => ?_)
  obtain ⟨good, larger⟩ := grown_good ok.size needed cfg.dataNeededFactor_lt below
  have whole := grown_whole ok.size needed cfg.dataNeededFactor_lt
  refine ends_run (onMap_run (grow_run there good)) fun _ => ⟨_, congrArg modPage whole, good, larger, ?_⟩
  rw [ok.truncate_tab (by omega)]
  exact (Moves.asked t there).trans (Moves.set _ _ _)

theorem reuseDeleted_run {val : PutVal} {p : Nat} (held : Held t (.tab win tab) file)
    (fixed : cfg.lenLen = 0) (low : dataOffset ≤ p)
    (large : 9 ≤ cfg.recordLen key.length val.len) (small : file.size < 2^32)
    (high : p + cfg.recordLen key.length val.len ≤ file.size) :
    reuseDeleted direct cfg win tab key val p t = ⟨.ok (), t.setFile (.tab win tab)
      { file with tab := { file.tab with
        data := writeRecord cfg file.tab.data p key val
        tabDataFreePos := nextFree file.tab.data p
        tabDataFree := (file.tab.tabDataFree + 2^32 - cfg.recordLen key.length val.len) % 2^32 } }, 0⟩ := by
  have inside := high
  unfold Config.recordLen at inside large
  rw [fixed] at inside large
  have whole : (p + 1) % 2^32 + 4 = p + 5 := by omega
  have link : readU32 direct (.tab win tab) (p + 5) t = ⟨.ok (nextFree file.tab.data p), t, 0⟩ :=
    readU32_run held (by omega) (by omega)
  let popped := relisted file (nextFree file.tab.data p)
  have held' (data : Memory) : Held (t.setFile (.tab win tab) (popped.withData data)) (.tab win tab)
    (popped.withData data) := t.held (.tab win tab) (show dataOffset ≤ file.size from held.size)
  have typed := @writeU08_run _ _ _ p dataTypeStr32 (held' file.tab.data) low
    (show p + 1 ≤ file.size by omega)
  have keyed := @writeMem_run _ _ _ (p + 1 + 0) key (held' (write file.tab.data p [dataTypeStr32]))
    (.inr ⟨by omega, show p + 1 + 0 + key.length ≤ file.size by omega⟩)
  have valued := @writeVal_run _ _ _ (p + 1 + 0 + key.length + 0) val
    (held' (write (write file.tab.data p [dataTypeStr32]) (p + 1 + 0) key)) (by omega)
    (show p + 1 + 0 + key.length + 0 + val.len ≤ file.size by omega)
  rw [State.setFile_setFile] at typed keyed valued
  have sized : writeLens cfg (write file.tab.data p [dataTypeStr32]) p key.length val.len =
    write file.tab.data p [dataTypeStr32] := if_pos fixed
  have len : (1 + key.length + val.len) % 2^32 = cfg.recordLen key.length val.len := by
    unfold Config.recordLen
    rw [fixed]
    exact Nat.mod_eq_of_lt (by omega)
  rw [reuseDeleted, whole, bind_ok link, bind_ok (modifyTab_run held _), fixed]
  refine (bind_ok typed).trans ((bind_ok keyed).trans ((bind_ok valued).trans ?_))
  refine (modifyTab_run (held' _) _).trans ?_
  rw [State.setFile_setFile, writeRecord, sized, ← len, fixed]
  rfl

/-- How storing a record of `len` bytes changes what is used of a table, and its list of deleted records. -/
inductive Takes (cfg : Config) (len : Nat) (file : File) : List Nat → File → List Nat → Nat → Prop
  | append {free : List Nat} {file' : File} (row : file'.tab.row = file.tab.row) (none_ : cfg.lenLen = 0 → free = [])
    (used : file'.tab.tabUsed = file.tab.tabUsed + len) (dataFree : file'.tab.tabDataFree = file.tab.tabDataFree)
    (size : file'.size = cfg.grownFor file.size file.tab.tabUsed len) :
    Takes cfg len file free file' free file.tab.tabUsed
  | reuse {p : Nat} {free : List Nat} {file' : File} (row : file'.tab.row = file.tab.row)
    (used : file'.tab.tabUsed = file.tab.tabUsed)
    (dataFree : file'.tab.tabDataFree = (file.tab.tabDataFree + 2^32 - len) % 2^32) :
    Takes cfg len file (p :: free) file' free p

/-- What a put has made of its table but for the ref, with its counters of refs and of bytes. -/
def Recorded (cfg : Config) (ptr : Ptr) (t : State Tables) (file : File) (c : Contents) (free : List Nat)
    (key val : List UInt8) (refsUsed dataUsed pos : Nat) (t' : State Tables) : Prop :=
  ∃ file' free', Moves ptr file' t t' ∧ TableOk cfg file' c free' ∧ Pending cfg file' c free' pos key val ∧
    Takes cfg (cfg.recordLen key.length val.length) file free file' free' pos ∧
    file'.tab.tabRefsUsed = refsUsed ∧ file'.tab.tabDataUsed = dataUsed

/-- What a value which was put is afterwards: bytes which are only reserved are those which were there. -/
def PutVal.Leaves (cfg : Config) (val : PutVal) (bytes : List UInt8) : Prop :=
  bytes.length = val.len ∧ ((cfg.lenLen = 0 → ∃ copied, val = .copy copied) → bytes = val.bytes)

theorem reuse_ends {val : PutVal} (there : t.map.fileAt (.tab win tab) = some file)
    (ok : TableOk cfg file c free) (fits : cfg.Fits key val.bytes) (fixed : cfg.lenLen = 0)
    (some_ : file.tab.tabDataFreePos ≠ 0) :
    Ends sizeLimit (reuseDeleted direct cfg win tab key val file.tab.tabDataFreePos)
      (fun _ t' => ∃ bytes, val.Leaves cfg bytes ∧ Recorded cfg (.tab win tab) t file c free key bytes
        file.tab.tabRefsUsed file.tab.tabDataUsed file.tab.tabDataFreePos t') (fun e t' => Refused cfg t'.shared.vfs e) t := by
  cases free with
  | nil => exact absurd ok.chain.first_eq some_
  | cons p free =>
    have first : file.tab.tabDataFreePos = p := ok.chain.uncons.1
    rw [first]
    obtain ⟨_, large, low, high⟩ := ok.spare List.mem_cons_self
    have len := fits.recordLen fixed
    obtain ⟨keyLen, valLen⟩ := fits fixed
    rw [PutVal.bytes_length] at len valLen
    have used := ok.used_high
    have small := ok.size.high
    have nine : 9 ≤ cfg.fixedLen := by
      unfold Config.fixedLen Config.recordLen
      omega
    have below : cfg.recordLen key.length val.len ≤ file.size := by omega
    unfold Config.recordLen at below
    have run := @reuseDeleted_run cfg t win tab file key val p (ok.held there) fixed low (by omega) small (by omega)
    obtain ⟨bytes, leaves, written⟩ : ∃ bytes, val.Leaves cfg bytes ∧
        writeRecord cfg file.tab.data p key val = writeRecord cfg file.tab.data p key (.copy bytes) := by
      cases val with
      | copy bytes => exact ⟨bytes, ⟨rfl, fun _ => rfl⟩, rfl⟩
      | reserve len =>
        refine ⟨_, ⟨read_length _ _ _, fun copies => ?_⟩, writeRecord_reserved⟩
        rcases copies fixed with ⟨_, isCopy⟩
        cases isCopy
    have length := leaves.1
    rw [written, ← length] at run
    obtain ⟨ok', pending⟩ := ok.reusing (fun _ => ⟨keyLen, length.trans valLen⟩) (by omega) (by omega)
    exact ends_run run fun _ => ⟨bytes, leaves, _, free, Moves.set _ _ _, ok'.counting, pending.counting,
      .reuse rfl rfl rfl, rfl, rfl⟩

def grownFile (cfg : Config) (file : File) (len : Nat) : File :=
  ⟨cfg.grownFor file.size file.tab.tabUsed len, { file.tab with tabSize := cfg.grownFor file.size file.tab.tabUsed len }⟩

/-- Growing makes room unless it grows by nothing. -/
theorem growFor_ends {len : Nat} (there : t.map.fileAt (.tab win tab) = some file) (ok : TableOk cfg file c free)
    (needed : len < 2^32) :
    Ends sizeLimit (when ((file.tab.tabSize + 2^32 - file.tab.tabUsed) % 2^32 < len) (growTab direct cfg win tab len))
      (fun _ t' => Moves (.tab win tab) (grownFile cfg file len) t t' ∧ TableOk cfg (grownFile cfg file len) c free ∧
        (file.tab.tabUsed + len ≤ (grownFile cfg file len).size ∨ cfg.dataNeededFactor = 0))
      (fun e t' => Refused cfg t'.shared.vfs e) t := by
  have used := ok.used_high
  have size := ok.size.high
  have short : (file.tab.tabSize + 2^32 - file.tab.tabUsed) % 2^32 = file.size - file.tab.tabUsed := by
    rw [ok.header]
    omega
  unfold grownFile Config.grownFor
  rw [short]
  refine ends_when (fun less => (growTab_ends there ok needed).mono ?_ fun _ _ refused => refused) fun enough => ?_
  · rintro _ t' ⟨size', size_eq, good, larger, moves⟩
    rw [if_pos less, ← size_eq]
    refine ⟨moves, ok.growing good (by omega), ?_⟩
    rcases Nat.eq_zero_or_pos cfg.dataNeededFactor with zero | pos
    · exact .inr zero
    · have more : len * 1 ≤ len * cfg.dataNeededFactor := Nat.mul_le_mul_left _ pos
      exact .inl (by change _ ≤ size'; omega)
  · have same : (⟨file.size, { file.tab with tabSize := file.size }⟩ : File) = file :=
      congrArg (fun size => (⟨file.size, { file.tab with tabSize := size }⟩ : File)) ok.header.symm
    rw [if_neg enough, same]
    exact ⟨Moves.refl there, ok, .inl (by omega)⟩

/-- A record of any lengths goes behind the others. -/
theorem appendBehind_ends {val : PutVal} {pos : Nat} (there : t.map.fileAt (.tab win tab) = some file)
    (ok : TableOk cfg file c free) (needed : cfg.recordLen key.length val.len < 2^32) :
    Ends sizeLimit (do
      ask (file.tab.tabUsed + cfg.recordLen key.length val.len)
      when ((file.tab.tabSize + 2^32 - file.tab.tabUsed) % 2^32 < cfg.recordLen key.length val.len)
        (growTab direct cfg win tab (cfg.recordLen key.length val.len))
      appendRecord direct cfg win tab key val (cfg.recordLen key.length val.len)
      pure pos : Operation Tables Nat)
      (fun pos' t' => pos' = pos ∧
        let grown := grownFile cfg file (cfg.recordLen key.length val.len)
        TableOk cfg grown c free ∧ file.tab.tabUsed + cfg.recordLen key.length val.len ≤ grown.size ∧
          Moves (.tab win tab) (appended cfg grown key val) t t')
      (fun e t' => Refused cfg t'.shared.vfs e) t := by
  refine ends_bind (ends_ask fun small => ?_)
  refine ends_step (growFor_ends there ok needed) (fun _ _ refused => refused) ?_
  rintro _ t' ⟨moves, ok', room⟩
  generalize grown_eq : grownFile cfg file (cfg.recordLen key.length val.len) = grown at *
  have used : grown.tab.tabUsed = file.tab.tabUsed := by
    rw [← grown_eq]
    rfl
  by_cases enough : file.tab.tabUsed + cfg.recordLen key.length val.len ≤ grown.size
  · have run := appendRecord_run (ok'.held moves.there) ok'.header ok'.used_low ok'.size.high (used ▸ enough)
    exact ends_after run (ends_pure ⟨rfl, ok', enough, moves.trans (Moves.set _ _ _)⟩)
  · have refused : Refused cfg t'.shared.vfs .internal := .inr ⟨rfl, room.resolve_left enough⟩
    refine ends_bind (ends_after (tabAt_run (ok'.held moves.there)) ?_)
    refine ends_bind (ends_check (fun _ => ?_) fun _ => refused)
    refine ends_bind (ends_check (fun second => ?_) fun _ => refused)
    unfold Config.recordLen at small enough
    rw [ok'.header, used, Nat.mod_eq_of_lt (by unfold sizeLimit at small; omega)] at second
    omega

theorem reuseOrAppend_ends {val : PutVal} (there : t.map.fileAt (.tab win tab) = some file)
    (ok : TableOk cfg file c free) (fits : cfg.Fits key val.bytes)
    (needed : cfg.recordLen key.length val.len < 2^32) :
    Ends sizeLimit (reuseOrAppend direct cfg win tab key val file.tab.tabUsed
        (cfg.recordLen key.length val.len) file.tab)
      (fun pos t' => ∃ bytes, val.Leaves cfg bytes ∧ Recorded cfg (.tab win tab) t file c free key bytes
        file.tab.tabRefsUsed file.tab.tabDataUsed pos t') (fun e t' => Refused cfg t'.shared.vfs e) t := by
  refine ends_ite (fun reuse => ?_) fun spent => ?_
  · refine ends_step (reuse_ends there ok fits reuse.1 reuse.2) (fun _ _ refused => refused) ?_
    exact fun _ _ recorded => ends_pure recorded
  have none_ : cfg.lenLen = 0 → free = [] := fun fixed => ok.none_listed (not_not.mp (not_and.mp spent fixed))
  refine (appendBehind_ends there ok needed).mono ?_ fun _ _ refused => refused
  rintro pos t' ⟨rfl, ok', room, moves⟩
  unfold Config.recordLen at needed
  have storable : cfg.Storable (grownFile cfg file (cfg.recordLen key.length val.len)).tab.data
      (grownFile cfg file (cfg.recordLen key.length val.len)).tab.tabUsed key val :=
    ⟨fits, .inr fun i low _ => ok'.tail i low⟩
  obtain ⟨ok'', pending⟩ := ok'.appending storable (by omega) (by omega) room
  refine ⟨val.bytes, ⟨PutVal.bytes_length val, fun _ => rfl⟩, _, free, moves, ok'', pending, ?_, rfl, rfl⟩
  rw [PutVal.bytes_length]
  exact .append rfl none_ rfl rfl rfl

/-- A record is stored, whether its value is given or only reserved. -/
theorem tabAppend_leaves {val : PutVal} (there : t.map.fileAt (.tab win tab) = some file)
    (ok : TableOk cfg file c free) (fits : cfg.Fits key val.bytes) :
    Ends sizeLimit (tabAppend direct cfg win tab key val file.tab.tabUsed)
      (fun pos t' => ∃ bytes, val.Leaves cfg bytes ∧ Recorded cfg (.tab win tab) t file c free key bytes
        ((file.tab.tabRefsUsed + 1) % 2^32) ((file.tab.tabDataUsed + cfg.recordLen key.length val.len) % 2^32) pos t')
      (fun e t' => Refused cfg t'.shared.vfs e) t := by
  refine ends_bind (ends_ask fun needed => ?_)
  refine ends_after (tabAt_run (ok.held there)) ?_
  refine ends_step (reuseOrAppend_ends there ok fits needed) (fun _ _ refused => refused) ?_
  rintro pos t' ⟨bytes, leaves, file', free', moves, ok', pending, takes, refsUsed, dataUsed⟩
  refine ends_after (modifyTab_run (ok'.held moves.there) _) (ends_pure ?_)
  refine ⟨bytes, leaves, _, free', moves.trans (Moves.set _ _ _), ok'.counting, pending.counting, ?_, ?_, ?_⟩
  · cases takes with
    | append row none_ used dataFree size => exact .append row none_ used dataFree size
    | reuse row used dataFree => exact .reuse row used dataFree
  · rw [← refsUsed]
  · rw [← dataUsed]
    rfl

theorem tabAppend_records {val : PutVal} (there : t.map.fileAt (.tab win tab) = some file)
    (ok : TableOk cfg file c free) (accepts : cfg.Accepts key val) :
    Ends sizeLimit (tabAppend direct cfg win tab key val file.tab.tabUsed)
      (Recorded cfg (.tab win tab) t file c free key val.bytes ((file.tab.tabRefsUsed + 1) % 2^32)
        ((file.tab.tabDataUsed + cfg.recordLen key.length val.len) % 2^32)) (fun e t' => Refused cfg t'.shared.vfs e) t := by
  refine (tabAppend_leaves there ok accepts.1).mono ?_ fun _ _ refused => refused
  rintro pos t' ⟨bytes, leaves, recorded⟩
  rw [leaves.2 accepts.2] at recorded
  exact recorded

def Ready (cfg : Config) (ptr : Ptr) (t : State Tables) (c : Contents) (key val : List UInt8) (pos : Nat)
    (t' : State Tables) : Prop :=
  ∃ file free, Moves ptr file t t' ∧ TableOk cfg file c free ∧ Pending cfg file c free pos key val

theorem tabAppend_ends {val : PutVal} (there : t.map.fileAt (.tab win tab) = some file)
    (ok : TableOk cfg file c free) (accepts : cfg.Accepts key val) :
    Ends sizeLimit (tabAppend direct cfg win tab key val file.tab.tabUsed)
      (fun pos t' => Ready cfg (.tab win tab) t c key val.bytes pos t') (fun e t' => Refused cfg t'.shared.vfs e) t := by
  refine (tabAppend_records there ok accepts).mono ?_ fun _ _ refused => refused
  rintro pos t' ⟨file', free', moves, ok', pending, _⟩
  exact ⟨file', free', moves, ok', pending⟩

end Append

end SharedHashFile.Store
