import SharedHashFile.Store.Calls

namespace SharedHashFile.Store

open ByteMemory Program

structure Frozen {μ : Type} (W : (Fin 256 → Win) → Prop) (J : μ → Prop) (s : State μ) : Prop where
  wins : W s.shared.wins
  map : J s.map

/-- The numbers of tables in use, and something which is known of the tables. -/
structure Steady {μ : Type} (used : Fin 256 → Nat) (J : μ → Prop) (s : State μ) : Prop where
  used_eq : ∀ win, (s.shared.wins win).tabsUsed = used win
  map : J s.map

structure Mapping.Steady {μ : Type} (m : Mapping μ) (J : μ → Prop) : Prop where
  getTabMmap : ∀ win tab, Keeps J (m.getTabMmap win tab)
  store : ∀ map ptr tab, J map → J (m.store map ptr tab)
  grow : ∀ win tab size, Keeps J (m.grow win tab size)
  release : Keeps J m.release

namespace Frozen

section Primitives

variable {μ α : Type} {m : Mapping μ} {W : (Fin 256 → Win) → Prop} {J : μ → Prop} {ptr : Ptr} {off : Nat}

theorem onMap_keeps {x : Program Stop μ α} (inside : Keeps J x) : Keeps (Frozen W J) (onMap x) :=
  keeps_zoom inside (fun _ frozen => frozen.map) fun _ _ frozen map => ⟨frozen.wins, map⟩

theorem onShared_keeps {x : Program Stop Shared α} (inside : ∀ shared, (x shared).state.wins = shared.wins) :
    Keeps (Frozen W J) (onShared x : Operation μ α) := by
  intro s frozen
  refine ⟨?_, frozen.map⟩
  change W (x s.shared).state.wins
  rw [inside]
  exact frozen.wins

theorem modifyTls_keeps (f : Tls → Tls) : Keeps (Frozen W J) (modifyTls f) := onShared_keeps fun _ => rfl

theorem vfsAvailable_keeps : Keeps (Frozen W J) vfsAvailable := onShared_keeps fun _ => rfl

theorem viewAt_keeps : Keeps (Frozen W J) (viewAt m ptr) := by
  apply onMap_keeps
  intro map holds
  dsimp only
  split
  · split <;> exact holds
  · exact holds

theorem tabAt_keeps : Keeps (Frozen W J) (tabAt m ptr) := keeps_bind viewAt_keeps fun _ => keeps_pure _

theorem access_keeps {len : Nat} : Keeps (Frozen W J) (access m ptr off len) :=
  keeps_bind viewAt_keeps fun _ => keeps_bind (keeps_check _ _) fun _ => keeps_check _ _

theorem readMem_keeps {len : Nat} : Keeps (Frozen W J) (readMem m ptr off len) :=
  keeps_bind access_keeps fun _ => keeps_bind tabAt_keeps fun _ => keeps_pure _

theorem readU32_keeps : Keeps (Frozen W J) (readU32 m ptr off) := keeps_bind readMem_keeps fun _ => keeps_pure _

variable (steady : m.Steady J)
include steady

theorem modifyTab_keeps {f : Tab → Tab} : Keeps (Frozen W J) (modifyTab m ptr f) :=
  keeps_bind viewAt_keeps fun view => onMap_keeps (keeps_modify fun map holds => steady.store map ptr (f view.tab) holds)

theorem writeMem_keeps {bytes : List UInt8} : Keeps (Frozen W J) (writeMem m ptr off bytes) :=
  keeps_bind access_keeps fun _ => modifyTab_keeps steady

theorem writeVal_keeps {val : PutVal} : Keeps (Frozen W J) (writeVal m ptr off val) := by
  cases val with
  | copy bytes => exact writeMem_keeps steady
  | reserve len => exact keeps_pure ()

end Primitives

section Tables

variable {μ : Type} {m : Mapping μ} {cfg : Config} {W : (Fin 256 → Win) → Prop} {J : μ → Prop} {win : Fin 256} {tab : Nat}
  {ptr : Ptr} {row : Fin 512} {ref : Fin 16} {key : List UInt8} {val : PutVal} {pos : Nat}

theorem recordLens_keeps : Keeps (Frozen W J) (recordLens m cfg ptr pos) := by
  apply keeps_ite
  · intro _
    exact keeps_pure _
  · intro _
    exact keeps_bind readU32_keeps fun _ => keeps_bind readU32_keeps fun _ => keeps_pure _

variable (steady : m.Steady J)
include steady

theorem reuseDeleted_keeps : Keeps (Frozen W J) (reuseDeleted m cfg win tab key val pos) := by
  refine keeps_bind readU32_keeps fun _ => keeps_bind (modifyTab_keeps steady) fun _ => ?_
  refine keeps_bind (writeMem_keeps steady) fun _ => keeps_bind (writeMem_keeps steady) fun _ => ?_
  exact keeps_bind (writeVal_keeps steady) fun _ => modifyTab_keeps steady

theorem growTab_keeps {dataNeeded : Nat} : Keeps (Frozen W J) (growTab m cfg win tab dataNeeded) := by
  refine keeps_bind tabAt_keeps fun _ => keeps_bind vfsAvailable_keeps fun _ => ?_
  exact keeps_bind (keeps_check _ _) fun _ => keeps_bind (keeps_ask _) fun _ => onMap_keeps (steady.grow win tab _)

theorem appendRecord_keeps {dataNeeded : Nat} :
    Keeps (Frozen W J) (appendRecord m cfg win tab key val dataNeeded) := by
  refine keeps_bind tabAt_keeps fun _ => keeps_bind (keeps_check _ _) fun _ => keeps_bind (keeps_check _ _) fun _ => ?_
  refine keeps_bind (writeMem_keeps steady) fun _ => ?_
  refine keeps_bind (keeps_when fun _ => keeps_bind (writeMem_keeps steady) fun _ => writeMem_keeps steady) fun _ => ?_
  refine keeps_bind (writeMem_keeps steady) fun _ => keeps_bind (writeVal_keeps steady) fun _ => ?_
  exact modifyTab_keeps steady

theorem tabAppend_keeps : Keeps (Frozen W J) (tabAppend m cfg win tab key val pos) := by
  refine keeps_bind (keeps_ask _) fun _ => keeps_bind tabAt_keeps fun t => keeps_bind ?_ fun _ =>
    keeps_bind (modifyTab_keeps steady) fun _ => keeps_pure _
  apply keeps_ite
  · intro _
    exact keeps_bind (reuseDeleted_keeps steady) fun _ => keeps_pure _
  · intro _
    refine keeps_bind (keeps_ask _) fun _ => keeps_bind (keeps_when fun _ => growTab_keeps steady) fun _ => ?_
    exact keeps_bind (appendRecord_keeps steady) fun _ => keeps_pure _

theorem tabRefMarkAsDeleted_keeps {keyLen valLen : Nat} :
    Keeps (Frozen W J) (tabRefMarkAsDeleted m cfg ptr row ref keyLen valLen) := by
  refine keeps_bind tabAt_keeps fun _ => keeps_bind (writeMem_keeps steady) fun _ => ?_
  refine keeps_bind (keeps_when fun _ => writeMem_keeps steady) fun _ => ?_
  refine keeps_bind (keeps_when fun _ => keeps_bind (writeMem_keeps steady) fun _ => modifyTab_keeps steady) fun _ => ?_
  exact modifyTab_keeps steady

theorem tabRefCopy_keeps {from_ : Ptr} : Keeps (Frozen W J) (tabRefCopy m cfg win tab from_ row ref) := by
  refine keeps_bind tabAt_keeps fun _ => keeps_bind tabAt_keeps fun _ => keeps_bind recordLens_keeps fun lens => ?_
  refine keeps_bind readMem_keeps fun _ => keeps_bind readMem_keeps fun _ => ?_
  refine keeps_bind (tabAppend_keeps steady) fun _ => keeps_bind (tabRefMarkAsDeleted_keeps steady) fun _ => ?_
  exact modifyTab_keeps steady

theorem shrinkLoop_keeps : Keeps (Frozen W J) (do
    allRefs.forM fun (row, ref) => do
      let tOld ← tabAt m .old
      when ((tOld.row row ref).pos ≠ 0) (tabRefCopy m cfg win tab .old row ref)
    onMap m.release) := by
  refine keeps_bind (keeps_forM (fun _ => ?_) allRefs) fun _ => onMap_keeps steady.release
  exact keeps_bind tabAt_keeps fun _ => keeps_when fun _ => tabRefCopy_keeps steady

theorem shrinkRest_keeps (replace : ∀ win tab, Keeps J (m.replace win tab)) : Keeps (Frozen W J) (do
    onMap (m.getTabMmap win tab)
    onMap (m.replace win tab)
    allRefs.forM fun (row, ref) => do
      let tOld ← tabAt m .old
      when ((tOld.row row ref).pos ≠ 0) (tabRefCopy m cfg win tab .old row ref)
    onMap m.release) :=
  keeps_bind (onMap_keeps (steady.getTabMmap win tab)) fun _ => keeps_bind (onMap_keeps (replace win tab)) fun _ =>
    shrinkLoop_keeps steady

end Tables

end Frozen

section Steady

variable {μ α : Type} {m : Mapping μ} {cfg : Config} {used : Fin 256 → Nat} {J : μ → Prop} {win : Fin 256} {tab off : Nat}
  {ptr : Ptr} {row : Fin 512} {ref : Fin 16} {key : List UInt8} {val : PutVal} {pos : Nat}

theorem Keeps.steady {x : Operation μ α} (keeps : ∀ W, Keeps (Frozen W J) x) : Keeps (Steady used J) x := by
  intro s steady
  rcases keeps (fun wins => ∀ win, (wins win).tabsUsed = used win) s ⟨steady.used_eq, steady.map⟩ with ⟨wins, map⟩
  exact ⟨wins, map⟩

theorem onMap_keeps {x : Program Stop μ α} (inside : Keeps J x) : Keeps (Steady used J) (onMap x) :=
  Keeps.steady fun _ => Frozen.onMap_keeps inside

theorem onShared_keeps {x : Program Stop Shared α}
    (inside : ∀ shared win, ((x shared).state.wins win).tabsUsed = (shared.wins win).tabsUsed) :
    Keeps (Steady used J) (onShared x : Operation μ α) :=
  fun s steady => ⟨fun win => (inside s.shared win).trans (steady.used_eq win), steady.map⟩

theorem getTls_keeps : Keeps (Steady used J) getTls := onShared_keeps fun _ _ => rfl

theorem modifyTls_keeps (f : Tls → Tls) : Keeps (Steady used J) (modifyTls f) := onShared_keeps fun _ _ => rfl

theorem getWin_keeps (win : Fin 256) : Keeps (Steady used J) (getWin win) := onShared_keeps fun _ _ => rfl

theorem modifyWin_keeps {win : Fin 256} {f : Win → Win} (same : ∀ w, (f w).tabsUsed = w.tabsUsed) :
    Keeps (Steady used J) (modifyWin win f) := by
  apply onShared_keeps
  intro shared win'
  change (Function.update shared.wins win (f (shared.wins win)) win').tabsUsed = _
  rw [Function.update_apply]
  split
  · rename_i here
    rw [same, here]
  · rfl

theorem tabAt_keeps : Keeps (Steady used J) (tabAt m ptr) := Keeps.steady fun _ => Frozen.tabAt_keeps

theorem access_keeps {len : Nat} : Keeps (Steady used J) (access m ptr off len) :=
  Keeps.steady fun _ => Frozen.access_keeps

theorem readMem_keeps {len : Nat} : Keeps (Steady used J) (readMem m ptr off len) :=
  Keeps.steady fun _ => Frozen.readMem_keeps

theorem recordLens_keeps : Keeps (Steady used J) (recordLens m cfg ptr pos) :=
  Keeps.steady fun _ => Frozen.recordLens_keeps

theorem partRedirects_keeps {tabOld tabNew : Nat} {items : List (Fin 2048)} {tabSwitch : Bool} :
    Keeps (Steady used J) (partRedirects win tabOld tabNew items tabSwitch : Operation μ Unit) := by
  induction items generalizing tabSwitch with
  | nil => exact keeps_pure ()
  | cons tab2 rest ih =>
    refine keeps_bind (getWin_keeps win) fun w => keeps_bind (keeps_check _ _) fun _ => keeps_ite (fun _ => ?_) fun _ => ih
    exact keeps_bind (modifyWin_keeps fun _ => rfl) fun _ => ih

variable (steady : m.Steady J)
include steady

theorem modifyTab_keeps {f : Tab → Tab} : Keeps (Steady used J) (modifyTab m ptr f) :=
  Keeps.steady fun _ => Frozen.modifyTab_keeps steady

theorem writeMem_keeps {bytes : List UInt8} : Keeps (Steady used J) (writeMem m ptr off bytes) :=
  Keeps.steady fun _ => Frozen.writeMem_keeps steady

theorem tabAppend_keeps : Keeps (Steady used J) (tabAppend m cfg win tab key val pos) :=
  Keeps.steady fun _ => Frozen.tabAppend_keeps steady

theorem partRef_keeps {tabOld tabNew : Nat} :
    Keeps (Steady used J) (partRef m cfg win tabOld tabNew row ref) := by
  refine keeps_bind tabAt_keeps fun _ => keeps_when fun _ => keeps_bind (getWin_keeps win) fun _ => ?_
  refine keeps_bind (keeps_check _ _) fun _ => keeps_bind (keeps_check _ _) fun _ => keeps_ite (fun _ => ?_) fun _ =>
    modifyWin_keeps fun _ => rfl
  exact keeps_bind (modifyWin_keeps fun _ => rfl) fun _ => Keeps.steady fun _ => Frozen.tabRefCopy_keeps steady

theorem shrinkLoop_keeps : Keeps (Steady used J) (do
    allRefs.forM fun (row, ref) => do
      let tOld ← tabAt m .old
      when ((tOld.row row ref).pos ≠ 0) (tabRefCopy m cfg win tab .old row ref)
    onMap m.release) := Keeps.steady fun _ => Frozen.shrinkLoop_keeps steady

theorem tabShrink_keeps (replace : ∀ win tab, Keeps J (m.replace win tab)) :
    Keeps (Steady used J) (tabShrink m cfg win tab) :=
  keeps_bind (modifyWin_keeps fun _ => rfl) fun _ => Keeps.steady fun _ => Frozen.shrinkRest_keeps steady replace

end Steady

end SharedHashFile.Store
