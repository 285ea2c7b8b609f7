import SharedHashFile.Store.PartSpec

namespace SharedHashFile.Store

open ByteMemory Program

/-- What a slot of a store stands for. -/
structure Binding where
  rnd : Nat
  key : List UInt8
  val : List UInt8

abbrev Bindings := Slot → Option Binding

def Entry.binding (e : Entry) : Binding := ⟨e.rnd, e.key, e.val⟩

/-- A table holds what is bound at the slots redirected to it. -/
def Shows (c : Contents) (win : Fin 256) (tab : Nat) (tabs : Fin 2048 → Nat) (b : Bindings) : Prop :=
  ∀ row ref e, c row ref = some e ↔ tabs e.tab = tab ∧ b ⟨win, e.tab, row, ref⟩ = some e.binding

/-- A store in use: its tables hold `b`. -/
structure StoreOk (cfg : Config) (t : State Tables) (b : Bindings) : Prop where
  used_le : ∀ win, (t.shared.wins win).tabsUsed ≤ 2048
  tabs_lt : ∀ win i, (t.shared.wins win).tabs i < (t.shared.wins win).tabsUsed
  old : t.map.old = none
  absent : ∀ win tab, (t.shared.wins win).tabsUsed ≤ tab → t.map.table win tab = none
  tables : ∀ win tab, tab < (t.shared.wins win).tabsUsed → ∃ file c free, t.map.table win tab = some file ∧
    TableOk cfg (Tables.opened file) c free ∧ Shows c win tab (t.shared.wins win).tabs b

section Showing

variable {c : Contents} {win : Fin 256} {tab : Nat} {tabs : Fin 2048 → Nat} {b b' : Bindings}
  {row : Fin 512} {ref : Fin 16} {i : Fin 2048} {entry : Entry}

theorem Shows.binding (shows_ : Shows c win tab tabs b) {binding : Binding} (here : tabs i = tab) :
    b ⟨win, i, row, ref⟩ = some binding ↔ c row ref = some ⟨i, binding.rnd, binding.key, binding.val⟩ :=
  ⟨fun bound => (shows_ row ref _).mpr ⟨here, bound⟩, fun found => ((shows_ row ref _).mp found).2⟩

theorem Shows.free (shows_ : Shows c win tab tabs b) (none_ : c row ref = none) (here : tabs i = tab) :
    b ⟨win, i, row, ref⟩ = none := by
  cases bound : b ⟨win, i, row, ref⟩ with
  | none => rfl
  | some binding =>
    have found := (shows_.binding here).mp bound
    rw [none_] at found
    cases found

theorem Shows.congr (shows_ : Shows c win tab tabs b)
    (same : ∀ row ref i, tabs i = tab → b' ⟨win, i, row, ref⟩ = b ⟨win, i, row, ref⟩) :
    Shows c win tab tabs b' := by
  intro row ref e
  rw [shows_ row ref e]
  constructor
  · rintro ⟨here, bound⟩
    exact ⟨here, (same row ref e.tab here).trans bound⟩
  · rintro ⟨here, bound⟩
    exact ⟨here, (same row ref e.tab here).symm.trans bound⟩

theorem Shows.set (shows_ : Shows c win tab tabs b) (here : tabs i = tab)
    (alone : ∀ e, c row ref = some e → e.tab = i) (binding : Option Binding) :
    Shows (c.set row ref (binding.map fun bound => ⟨i, bound.rnd, bound.key, bound.val⟩)) win tab tabs
      (Function.update b ⟨win, i, row, ref⟩ binding) := by
  intro row' ref' e
  rw [Contents.set_apply, Function.update_apply]
  by_cases at_ : row' = row ∧ ref' = ref
  · obtain ⟨rfl, rfl⟩ := at_
    rw [if_pos ⟨rfl, rfl⟩]
    by_cases same : e.tab = i
    · rw [if_pos (by rw [same]), Option.map_eq_some_iff]
      constructor
      · rintro ⟨bound, rfl, rfl⟩
        exact ⟨here, rfl⟩
      · rintro ⟨_, rfl⟩
        exact ⟨_, rfl, by rw [← same]; rfl⟩
    · have other : (⟨win, e.tab, row', ref'⟩ : Slot) ≠ ⟨win, i, row', ref'⟩ := fun eq => same (Slot.mk.inj eq).2.1
      rw [if_neg other]
      constructor
      · intro found
        rcases Option.map_eq_some_iff.mp found with ⟨bound, _, rfl⟩
        exact absurd rfl same
      · intro bound
        exact absurd (alone e ((shows_ row' ref' e).mpr bound)) same
  · have other : (⟨win, e.tab, row', ref'⟩ : Slot) ≠ ⟨win, i, row, ref⟩ := fun eq => at_ (Slot.mk.inj eq).2.2
    rw [if_neg at_, if_neg other]
    exact shows_ row' ref' e

end Showing

section Stores

variable {cfg : Config} {t t' : State Tables} {b b' : Bindings} {win : Fin 256} {tab : Nat} {file : File}
  {c : Contents} {free : List Nat}

/-- One table was changed, and what it holds with it. -/
theorem StoreOk.change (ok : StoreOk cfg t b) (moves : Moves (.tab win tab) file t t')
    (tableOk : TableOk cfg file c free) (used : tab < (t.shared.wins win).tabsUsed)
    (shows_ : Shows c win tab (t.shared.wins win).tabs b')
    (same : ∀ slot, ¬(slot.win = win ∧ (t.shared.wins win).tabs slot.tab = tab) → b' slot = b slot) :
    StoreOk cfg t' b' := by
  have elsewhere {win' : Fin 256} {tab' : Nat} (away : ¬(win' = win ∧ tab' = tab)) :
      t'.map.table win' tab' = t.map.table win' tab' :=
    moves.frame.files (.tab win' tab') fun eq => away ⟨(Ptr.tab.inj eq).1, (Ptr.tab.inj eq).2⟩
  refine ⟨fun win' => ?_, fun win' i => ?_, (moves.frame.files .old nofun).trans ok.old, fun win' tab' above => ?_,
    fun win' tab' below => ?_⟩
  · rw [moves.frame.used]
    exact ok.used_le win'
  · rw [moves.frame.used, moves.frame.tabs]
    exact ok.tabs_lt win' i
  · rw [moves.frame.used] at above
    rw [elsewhere]
    · exact ok.absent win' tab' above
    · rintro ⟨rfl, rfl⟩
      omega
  · rw [moves.frame.used] at below
    rw [moves.frame.tabs]
    by_cases here : win' = win ∧ tab' = tab
    · obtain ⟨rfl, rfl⟩ := here
      exact ⟨file, c, free, moves.there, by rw [tableOk.opened]; exact tableOk, shows_⟩
    · rcases ok.tables win' tab' below with ⟨file', c', free', there, okThere, showsThere⟩
      refine ⟨file', c', free', (elsewhere here).trans there, okThere, showsThere.congr fun row ref i at_ => ?_⟩
      apply same
      rintro ⟨rfl, same⟩
      exact here ⟨rfl, at_.symm.trans same⟩

/-- The thread local variables are no part of the store. -/
def State.withTls (t : State Tables) (f : Tls → Tls) : State Tables :=
  { t with shared := { t.shared with tls := f t.shared.tls } }

theorem modifyTls_run (t : State Tables) (f : Tls → Tls) : modifyTls f t = ⟨.ok (), t.withTls f, 0⟩ := rfl

theorem getTls_run {μ : Type} (t : State μ) : getTls t = ⟨.ok t.shared.tls, t, 0⟩ := rfl

theorem Frame.withTls {touched : Ptr → Prop} (t : State Tables) (f : Tls → Tls) :
    Frame touched t (t.withTls f) := ⟨fun _ _ => rfl, fun _ => rfl, fun _ => rfl, fun _ => rfl⟩

theorem StoreOk.withTls (ok : StoreOk cfg t b) (f : Tls → Tls) : StoreOk cfg (t.withTls f) b :=
  ⟨ok.used_le, ok.tabs_lt, ok.old, ok.absent, ok.tables⟩

/-- `modifyTls_run` without the term of the state, for functions which a proof should not look into. -/
theorem modifyTls_step (t : State Tables) (f : Tls → Tls) : ∃ t', modifyTls f t = ⟨.ok (), t', 0⟩ ∧
    t'.map = t.map ∧ t'.shared.tls = f t.shared.tls ∧ Frame (fun _ => False) t t' :=
  ⟨_, modifyTls_run t f, rfl, rfl, Frame.withTls t f⟩

theorem StoreOk.untouched {touched : Ptr → Prop} (ok : StoreOk cfg t b) (map : t'.map = t.map)
    (frame : Frame touched t t') : StoreOk cfg t' b := by
  refine ⟨fun win' => ?_, fun win' i => ?_, map ▸ ok.old, fun win' tab above => ?_, fun win' tab below => ?_⟩
  · rw [frame.used]
    exact ok.used_le win'
  · rw [frame.used, frame.tabs]
    exact ok.tabs_lt win' i
  · rw [frame.used] at above
    rw [map]
    exact ok.absent win' tab above
  · rw [frame.used] at below
    rw [frame.tabs, map]
    exact ok.tables win' tab below

/-- `SHF_GET_TAB_MMAP` finds the table and opens it. -/
theorem StoreOk.getTabMmap_run (ok : StoreOk cfg t b) (used : tab < (t.shared.wins win).tabsUsed) :
    ∃ t' file c free, onMap (direct.getTabMmap win tab) t = ⟨.ok (), t', 0⟩ ∧ StoreOk cfg t' b ∧
      Moves (.tab win tab) file t t' ∧ TableOk cfg file c free ∧ Shows c win tab (t.shared.wins win).tabs b := by
  rcases ok.tables win tab used with ⟨file, c, free, there, tableOk, shows_⟩
  have moves := Moves.set t (.tab win tab) (Tables.opened file)
  exact ⟨_, _, c, free, getTabMmap_ends there, ok.change moves tableOk used shows_ fun _ _ => rfl, moves, tableOk,
    shows_⟩

end Stores

end SharedHashFile.Store
