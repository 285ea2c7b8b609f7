import SharedHashFile.Store.Ledger
import SharedHashFile.Store.TableRuns

namespace SharedHashFile.Store

open ByteMemory Program

def Tab.freeAfter (cfg : Config) (t : Tab) (needed : Nat) : Nat :=
  if cfg.lenLen = 0 ∧ t.tabDataFreePos ≠ 0 then (t.tabDataFree + 2^32 - needed % 2^32) % 2^32 else t.tabDataFree

theorem Tab.freeAfter_variable {cfg : Config} {t : Tab} {needed : Nat} (variable_ : cfg.lenLen ≠ 0) :
    t.freeAfter cfg needed = t.tabDataFree := if_neg fun both => variable_ both.1

namespace Ledger

variable {μ : Type} {m : Mapping μ} {limit : Nat} (b : Ledger m limit)

structure At (keep : Fin 256 → Nat → Prop) (ptr : Ptr) (file : File) (s : State μ) : Prop where
  known : b.Known keep s.map
  seen : Seen keep ptr
  there : (b.tables s.map).fileAt ptr = some file

structure Changed (keep : Fin 256 → Nat → Prop) (ptr : Ptr) (file : File) (s s' : State μ) : Prop where
  known : b.Known keep s'.map
  tables : b.tables s'.map = (b.tables s.map).setFile file ptr
  wins : s'.shared.wins = s.shared.wins

/-- How what is done to a table can stop: the checks on sizes fail only if growing by nothing is asked for. -/
def Stops (cfg : Config) (e : Stop) : Prop := e = .internal → b.sized → cfg.dataNeededFactor = 0

variable {b} {cfg : Config} {keep : Fin 256 → Nat → Prop} {ptr : Ptr} {file file' file'' : File} {s s' s'' : State μ}
  {win : Fin 256} {tab : Nat}

theorem Stops.of_ne {e : Stop} (other : e ≠ .internal) : b.Stops cfg e := fun same => absurd same other

theorem Stops.of_unsized {e : Stop} (unsized : e = .internal → ¬ b.sized) : b.Stops cfg e :=
  fun same sized => absurd sized (unsized same)

theorem Changed.at_ (changed : b.Changed keep ptr file s s') (seen : Seen keep ptr) : b.At keep ptr file s' :=
  ⟨changed.known, seen, by rw [changed.tables, Tables.fileAt_setFile]⟩

theorem Changed.trans (first : b.Changed keep ptr file s s') (second : b.Changed keep ptr file' s' s'') :
    b.Changed keep ptr file' s s'' :=
  ⟨second.known, by rw [second.tables, first.tables, Tables.setFile_setFile], second.wins.trans first.wins⟩

theorem setFile_self {T : Tables} (there : T.fileAt ptr = some file) : T.setFile file ptr = T := by
  cases ptr with
  | tab win tab => exact Tables.set_self there
  | old => exact Tables.ext rfl there.symm

theorem At.unchanged (at_ : b.At keep ptr file s) : b.Changed keep ptr file s s :=
  ⟨at_.known, (setFile_self at_.there).symm, rfl⟩

section Primitives

theorem wild_ne_internal : Stop.wild ≠ .internal := by decide

theorem viewAt_ends (at_ : b.At keep ptr file s) :
    Ends limit (viewAt m ptr) (fun view s' => s' = s ∧ view.tab = file.tab) (fun e _ => e ≠ .internal) s := by
  cases looked : m.look s.map ptr with
  | none =>
    have run : viewAt m ptr s = ⟨.error .wild, s, 0⟩ := by simp only [viewAt, onMap, zoom, looked]
    intro _
    rw [run]
    exact wild_ne_internal
  | some view =>
    have same := b.look_tab at_.known at_.seen at_.there looked
    by_cases reaches : dataOffset ≤ view.reach
    · have run : viewAt m ptr s = ⟨.ok view, s, 0⟩ := by simp only [viewAt, onMap, zoom, looked, if_pos reaches]
      exact ends_run run fun _ => ⟨rfl, same⟩
    · have run : viewAt m ptr s = ⟨.error .wild, s, 0⟩ := by simp only [viewAt, onMap, zoom, looked, if_neg reaches]
      intro _
      rw [run]
      exact wild_ne_internal

theorem tabAt_ends (at_ : b.At keep ptr file s) :
    Ends limit (tabAt m ptr) (fun tab s' => s' = s ∧ tab = file.tab) (fun e _ => e ≠ .internal) s := by
  apply ends_step (viewAt_ends at_) fun _ _ other => other
  rintro view s' ⟨rfl, same⟩
  exact ends_pure ⟨rfl, same⟩

theorem modifyTab_ends (at_ : b.At keep ptr file s) (f : Tab → Tab) : Ends limit (modifyTab m ptr f)
    (fun _ s' => b.Changed keep ptr { file with tab := f file.tab } s s') (fun e _ => e ≠ .internal) s := by
  apply ends_step (viewAt_ends at_) fun _ _ other => other
  rintro view s' ⟨rfl, same⟩
  rw [same]
  rcases b.store_known (f file.tab) at_.known at_.seen at_.there with ⟨known, tables⟩
  intro _
  exact ⟨known, tables, rfl⟩

theorem access_ends {off len : Nat} (at_ : b.At keep ptr file s) :
    Ends limit (access m ptr off len) (fun _ s' => s' = s ∧ (len = 0 ∨ dataOffset ≤ off)) (fun e _ => e ≠ .internal) s := by
  apply ends_step (viewAt_ends at_) fun _ _ other => other
  rintro view s' ⟨rfl, _⟩
  apply ends_bind
  apply ends_check
  · intro above
    rw [b.lowest] at above
    apply ends_check
    · exact fun _ => ⟨rfl, above⟩
    · exact fun _ => wild_ne_internal
  · exact fun _ => by decide

theorem readMem_ends {off len : Nat} (at_ : b.At keep ptr file s) :
    Ends limit (readMem m ptr off len) (fun _ s' => s' = s) (fun e _ => e ≠ .internal) s := by
  apply ends_step (access_ends at_) fun _ _ other => other
  rintro _ s' ⟨rfl, _⟩
  apply ends_step (tabAt_ends at_) fun _ _ other => other
  rintro _ s' ⟨rfl, _⟩
  exact ends_pure rfl

theorem readU32_ends {off : Nat} (at_ : b.At keep ptr file s) :
    Ends limit (readU32 m ptr off) (fun _ s' => s' = s) (fun e _ => e ≠ .internal) s := by
  apply ends_step (readMem_ends at_) fun _ _ other => other
  rintro _ s' rfl
  exact ends_pure rfl

theorem writeMem_ends {off : Nat} {bytes : List UInt8} (at_ : b.At keep ptr file s) :
    Ends limit (writeMem m ptr off bytes) (fun _ s' => ∃ data, b.Changed keep ptr (file.withData data) s s')
      (fun e _ => e ≠ .internal) s := by
  apply ends_step (access_ends at_) fun _ _ other => other
  rintro _ s' ⟨rfl, above⟩
  apply (modifyTab_ends at_ _).mono _ fun _ _ other => other
  intro _ s'' changed
  rw [Tab.writeBytes_data above] at changed
  exact ⟨_, changed⟩

theorem writeVal_ends {off : Nat} {val : PutVal} (at_ : b.At keep ptr file s) :
    Ends limit (writeVal m ptr off val) (fun _ s' => ∃ data, b.Changed keep ptr (file.withData data) s s')
      (fun e _ => e ≠ .internal) s := by
  cases val with
  | copy bytes => exact writeMem_ends at_
  | reserve len => exact ends_pure ⟨file.tab.data, at_.unchanged⟩

theorem ends_write {α : Type} {x : Operation μ Unit} {f : Unit → Operation μ α} {Q : α → State μ → Prop}
    {E : Stop → State μ → Prop} {data : Memory} (changed : b.Changed keep ptr (file.withData data) s s')
    (seen : Seen keep ptr) (write : b.At keep ptr (file.withData data) s' → Ends limit x
      (fun _ s'' => ∃ data', b.Changed keep ptr ((file.withData data).withData data') s' s'')
      (fun e _ => e ≠ .internal) s') (stops : ∀ e t, e ≠ .internal → E e t)
    (next : ∀ data' s'', b.Changed keep ptr (file.withData data') s s'' → Ends limit (f ()) Q E s'') :
    Ends limit (x >>= f) Q E s' := by
  apply ends_step (write (changed.at_ seen)) stops
  rintro _ s'' ⟨data', more⟩
  exact next data' s'' (changed.trans more)

theorem ends_writeLens {keyOff valOff keyLen valLen : Nat} (at_ : b.At keep ptr file s) :
    Ends limit (when (cfg.lenLen ≠ 0) do
      writeU32 m ptr keyOff keyLen
      writeU32 m ptr valOff valLen) (fun _ s' => ∃ data, b.Changed keep ptr (file.withData data) s s')
      (fun e _ => e ≠ .internal) s := by
  apply ends_when
  · intro _
    apply @ends_write _ _ _ _ _ _ file _ _ _ _ _ _ _ _ at_.unchanged at_.seen writeMem_ends fun _ _ other => other
    intro data s' changed
    apply (writeMem_ends (changed.at_ at_.seen)).mono _ fun _ _ other => other
    rintro _ s'' ⟨data', more⟩
    exact ⟨data', changed.trans more⟩
  · intro _
    exact ⟨file.tab.data, at_.unchanged⟩

end Primitives

section Append

variable {key : List UInt8} {val : PutVal} {dataNeeded : Nat}

theorem growTab_ends (at_ : b.At keep (.tab win tab) file s) (fit : b.sized → Fit file) (needed : dataNeeded < limit) :
    Ends limit (growTab m cfg win tab dataNeeded) (fun _ s' => ∃ size,
      b.Changed keep (.tab win tab) ((file.truncate size).headed (size % 2^32) file.tab.tabUsed) s s' ∧
      (b.sized → GoodSize size ∧ file.size + dataNeeded * cfg.dataNeededFactor ≤ size)) (fun e _ => b.Stops cfg e) s := by
  apply ends_step (tabAt_ends at_) fun _ _ => Stops.of_ne
  rintro t s' ⟨rfl, rfl⟩
  let size := modPage ((file.tab.tabSize + dataNeeded * cfg.dataNeededFactor) % 2^64)
  let asked : State μ := { s' with shared := { s'.shared with vfsAsked := s'.shared.vfsAsked + 1 } }
  have vfs : vfsAvailable s' = ⟨.ok (s'.shared.vfs s'.shared.vfsAsked % 2^64), asked, 0⟩ := rfl
  apply ends_after vfs
  apply ends_bind
  apply ends_check
  · intro _
    apply ends_bind
    apply ends_ask
    intro below
    have good (sized : b.sized) : GoodSize size ∧ file.size + dataNeeded * cfg.dataNeededFactor ≤ size := by
      have small := b.sized_limit sized
      have grown := @grown_good file.size dataNeeded cfg.dataNeededFactor (fit sized).size
        (Nat.lt_of_lt_of_le needed small) cfg.dataNeededFactor_lt
      rw [← (fit sized).header] at grown ⊢
      exact grown (Nat.lt_of_lt_of_le below small)
    have positive (sized : b.sized) : size ≠ 0 := by
      have low := (good sized).1.low
      omega
    apply ends_zoom
    apply (b.grow_ends at_.known at_.seen at_.there (Disk.modPage_page _) positive).mono
    · rintro _ M ⟨known, tables⟩
      exact ⟨size, ⟨known, tables, rfl⟩, good⟩
    · exact fun _ _ => Stops.of_unsized
  · exact fun _ => Stops.of_ne nofun

theorem reuseDeleted_ends {pos : Nat} (at_ : b.At keep (.tab win tab) file s) :
    Ends limit (reuseDeleted m cfg win tab key val pos) (fun _ s' => ∃ data first,
      b.Changed keep (.tab win tab) { file with tab := { file.tab with
        data := data
        tabDataFreePos := first
        tabDataFree := (file.tab.tabDataFree + 2^32 - (1 + key.length + val.len) % 2^32) % 2^32 } } s s')
      (fun e _ => e ≠ .internal) s := by
  apply ends_step (readU32_ends at_) fun _ _ other => other
  rintro next s' rfl
  apply ends_step (modifyTab_ends at_ _) fun _ _ other => other
  intro _ s1 changed1
  have changed1 : b.Changed keep (.tab win tab) ((relisted file next).withData file.tab.data) s' s1 := changed1
  apply ends_write changed1 at_.seen writeMem_ends fun _ _ other => other
  intro data2 s2 changed2
  apply ends_write changed2 at_.seen writeMem_ends fun _ _ other => other
  intro data3 s3 changed3
  apply ends_write changed3 at_.seen writeVal_ends fun _ _ other => other
  intro data4 s4 changed4
  apply (modifyTab_ends (changed4.at_ at_.seen) _).mono _ fun _ _ other => other
  exact fun _ _ changed5 => ⟨data4, next, changed4.trans changed5⟩

theorem appendRecord_ends (at_ : b.At keep (.tab win tab) file s)
    (room : b.sized → file.tab.tabUsed + cfg.recordLen key.length val.len ≤ file.tab.tabSize ∨ cfg.dataNeededFactor = 0) :
    Ends limit (appendRecord m cfg win tab key val dataNeeded) (fun _ s' => ∃ data,
      b.Changed keep (.tab win tab) { file with tab := { file.tab with
        data := data, tabUsed := (file.tab.tabUsed + dataNeeded) % 2^32 } } s s' ∧
      (file.tab.tabUsed + cfg.recordLen key.length val.len) % 2^32 ≤ file.tab.tabSize) (fun e _ => b.Stops cfg e) s := by
  apply ends_step (tabAt_ends at_) fun _ _ => Stops.of_ne
  rintro t s' ⟨rfl, rfl⟩
  have len : file.tab.tabUsed + cfg.recordLen key.length val.len =
      file.tab.tabUsed + 1 + cfg.lenLen + key.length + cfg.lenLen + val.len := by
    unfold Config.recordLen
    omega
  have stops {part : Nat} (inside : part ≤ file.tab.tabUsed + cfg.recordLen key.length val.len)
      (beyond : ¬ part % 2^32 ≤ file.tab.tabSize) : b.Stops cfg .internal := by
    intro _ sized
    rcases room sized with enough | zero
    · exact absurd (Nat.le_trans (Nat.mod_le _ _) (Nat.le_trans inside enough)) beyond
    · exact zero
  apply ends_bind
  apply ends_check
  · intro _
    apply ends_bind
    apply ends_check
    · intro inside
      rw [← len] at inside
      apply @ends_write _ _ _ _ _ _ file _ _ _ _ _ _ _ _ at_.unchanged at_.seen writeMem_ends fun _ _ => Stops.of_ne
      intro data1 s1 changed1
      apply ends_write changed1 at_.seen ends_writeLens fun _ _ => Stops.of_ne
      intro data2 s2 changed2
      apply ends_write changed2 at_.seen writeMem_ends fun _ _ => Stops.of_ne
      intro data3 s3 changed3
      apply ends_write changed3 at_.seen writeVal_ends fun _ _ => Stops.of_ne
      intro data4 s4 changed4
      apply (modifyTab_ends (changed4.at_ at_.seen) _).mono _ fun _ _ => Stops.of_ne
      exact fun _ _ changed5 => ⟨data4, changed4.trans changed5, inside⟩
    · exact stops (by omega)
  · exact stops (by omega)

structure Appended (sized : Prop) (cfg : Config) (needed pos : Nat) (file file' : File) : Prop where
  row : file'.tab.row = file.tab.row
  refsUsed : file'.tab.tabRefsUsed = (file.tab.tabRefsUsed + 1) % 2^32
  dataUsed : file'.tab.tabDataUsed = (file.tab.tabDataUsed + needed) % 2^32
  freed : file'.tab.tabDataFree = file.tab.freeAfter cfg needed
  fit : sized → Fit file' ∧ pos ≠ 0

theorem Appended.dataFree {sized : Prop} {needed pos : Nat} (appended : Appended sized cfg needed pos file file')
    (variable_ : cfg.lenLen ≠ 0) : file'.tab.tabDataFree = file.tab.tabDataFree :=
  appended.freed.trans (Tab.freeAfter_variable variable_)

theorem reuseOrAppend_ends {pos : Nat} (at_ : b.At keep (.tab win tab) file s) (fit : b.sized → Fit file)
    (placed : b.sized → pos ≠ 0) (needed : cfg.recordLen key.length val.len < limit) :
    Ends limit (reuseOrAppend m cfg win tab key val pos (cfg.recordLen key.length val.len) file.tab)
      (fun pos' s' => ∃ file', b.Changed keep (.tab win tab) file' s s' ∧ file'.tab.row = file.tab.row ∧
        file'.tab.tabRefsUsed = file.tab.tabRefsUsed ∧ file'.tab.tabDataUsed = file.tab.tabDataUsed ∧
        file'.tab.tabDataFree = file.tab.freeAfter cfg (cfg.recordLen key.length val.len) ∧
        (b.sized → Fit file' ∧ pos' ≠ 0))
      (fun e _ => b.Stops cfg e) s := by
  apply ends_ite
  · rintro ⟨fixed, some_⟩
    apply ends_step (reuseDeleted_ends at_) fun _ _ => Stops.of_ne
    rintro _ s' ⟨data, first, changed⟩
    refine ends_pure ⟨_, changed, rfl, rfl, rfl, ?_, fun sized => ⟨?_, some_⟩⟩
    · have len : cfg.recordLen key.length val.len = 1 + key.length + val.len := by
        unfold Config.recordLen
        omega
      rw [Tab.freeAfter, if_pos ⟨fixed, some_⟩, len]
    · rcases fit sized with ⟨size, header, low, high⟩
      exact ⟨size, header, low, high⟩
  · intro appends
    apply ends_bind
    apply ends_ask
    intro below
    have grown : Ends limit (when ((file.tab.tabSize + 2^32 - file.tab.tabUsed) % 2^32 < cfg.recordLen key.length val.len)
        (growTab m cfg win tab (cfg.recordLen key.length val.len)))
        (fun _ s' => ∃ file', b.Changed keep (.tab win tab) file' s s' ∧ file'.tab.row = file.tab.row ∧
          file'.tab.tabUsed = file.tab.tabUsed ∧ file'.tab.tabRefsUsed = file.tab.tabRefsUsed ∧
          file'.tab.tabDataUsed = file.tab.tabDataUsed ∧ file'.tab.tabDataFree = file.tab.tabDataFree ∧
          (b.sized → Fit file' ∧ (file.tab.tabUsed + cfg.recordLen key.length val.len ≤ file'.tab.tabSize ∨
            cfg.dataNeededFactor = 0))) (fun e _ => b.Stops cfg e) s := by
      apply ends_when
      · intro _
        apply (growTab_ends at_ fit needed).mono _ fun _ _ stops => stops
        rintro _ s' ⟨size, changed, sizes⟩
        refine ⟨_, changed, rfl, rfl, rfl, rfl, rfl, fun sized => ?_⟩
        rcases sizes sized with ⟨good, larger⟩
        rcases fit sized with ⟨_, _, low, high⟩
        refine ⟨⟨good, good.mod_eq, low, Nat.le_trans high (by change _ ≤ size; omega)⟩, ?_⟩
        rcases Nat.eq_zero_or_pos cfg.dataNeededFactor with zero | positive
        · exact .inr zero
        · have more := Nat.le_mul_of_pos_right (cfg.recordLen key.length val.len) positive
          refine .inl ?_
          change _ ≤ size % 2^32
          rw [good.mod_eq]
          omega
      · intro enough
        refine ⟨file, at_.unchanged, rfl, rfl, rfl, rfl, rfl, fun sized => ⟨fit sized, .inl ?_⟩⟩
        rcases fit sized with ⟨size, header, _, high⟩
        have small := size.high
        omega
    apply ends_step grown fun _ _ stops => stops
    rintro _ s' ⟨file', changed, row, used, refsUsed, dataUsed, dataFree, fits⟩
    rw [← used] at fits below
    apply ends_step (appendRecord_ends (changed.at_ at_.seen) fun sized => (fits sized).2) fun _ _ stops => stops
    rintro _ s'' ⟨data, more, inside⟩
    have kept : file'.tab.tabDataFree = file.tab.freeAfter cfg (cfg.recordLen key.length val.len) := by
      rw [dataFree, Tab.freeAfter, if_neg appends]
    refine ends_pure ⟨_, changed.trans more, row, refsUsed, dataUsed, kept, fun sized => ⟨?_, placed sized⟩⟩
    rcases (fits sized).1 with ⟨size, header, low, _⟩
    have whole : (file'.tab.tabUsed + cfg.recordLen key.length val.len) % 2^32 =
        file'.tab.tabUsed + cfg.recordLen key.length val.len :=
      Nat.mod_eq_of_lt (Nat.lt_of_lt_of_le below (b.sized_limit sized))
    refine ⟨size, header, ?_, ?_⟩
    · change _ ≤ (file'.tab.tabUsed + cfg.recordLen key.length val.len) % 2^32
      rw [whole]
      exact Nat.le_trans low (Nat.le_add_right _ _)
    · rw [header] at inside
      exact inside

theorem tabAppend_ends {pos : Nat} (at_ : b.At keep (.tab win tab) file s) (fit : b.sized → Fit file)
    (placed : b.sized → pos ≠ 0) : Ends limit (tabAppend m cfg win tab key val pos)
      (fun pos' s' => ∃ file', b.Changed keep (.tab win tab) file' s s' ∧
        Appended b.sized cfg (cfg.recordLen key.length val.len) pos' file file') (fun e _ => b.Stops cfg e) s := by
  apply ends_bind
  apply ends_ask
  intro needed
  apply ends_step (tabAt_ends at_) fun _ _ => Stops.of_ne
  rintro t s' ⟨rfl, rfl⟩
  apply ends_step (reuseOrAppend_ends at_ fit placed needed) fun _ _ stops => stops
  rintro pos' s1 ⟨file1, changed1, row, refsUsed, dataUsed, dataFree, fits⟩
  apply ends_step (modifyTab_ends (changed1.at_ at_.seen) _) fun _ _ => Stops.of_ne
  intro _ s2 changed2
  refine ends_pure ⟨_, changed1.trans changed2, row, ?_, ?_, dataFree, fun sized => ⟨?_, (fits sized).2⟩⟩
  · rw [← refsUsed]
  · rw [← dataUsed]
    rfl
  · rcases (fits sized).1 with ⟨size, header, low, high⟩
    exact ⟨size, header, low, high⟩

end Append

end Ledger

end SharedHashFile.Store
