import SharedHashFile.Store.Guarded
import SharedHashFile.Store.SimulationSections
import SharedHashFile.Store.Statvfs

namespace SharedHashFile.Store

open Program

/-- A table past the last is mapped, unless its cell is behind all cells. -/
theorem Disk.getTabMmap_beyond {keep : Fin 256 → Nat → Prop} {d : Disk} (win : Fin 256) (coherent : d.Coherent keep) :
    (∃ d', Disk.getTabMmap win 2048 (d.creating win 2048) = ⟨.ok (), d', 0⟩ ∧
      ((d.creating win 2048).opening win 2048 d.nextFile).Agrees d') ∨
    Disk.getTabMmap win 2048 (d.creating win 2048) = ⟨.error .tabOverflow, d.creating win 2048, 0⟩ := by
  by_cases strays : win.val = 255 ∧ 2048 = 2048 ∧ (d.creating win 2048).strays = true
  · right
    rw [getTabMmap, bind_ok (get_run _)]
    exact bind_error (check_false (not_not.mpr strays) _ _)
  · left
    have unmapped : (d.creating win 2048).mine win 2048 = none := by
      cases mine : d.mine win 2048 with
      | none => exact mine
      | some off =>
        rcases coherent.off_opened mine with ⟨file, path, _⟩
        exact absurd (coherent.tab_lt path) (Nat.lt_irrefl _)
    refine getTabMmap_unmapped strays unmapped ?_ ?_ ?_
    · rw [creating_path, if_pos ⟨rfl, rfl⟩]
    · exact creating_fresh ▸ newTab_good
    · exact creating_fresh ▸ .inl rfl

theorem guarded_faithful : Faithful mapped.guarded where
  lowest := rfl
  look := rfl
  store := rfl
  getTabMmap coherent path := Disk.getTabMmap_run coherent path
  beyond {_ _ win} coherent := by
    rcases Disk.getTabMmap_beyond win coherent with ⟨d', run, _⟩ | stopped
    · exact ⟨d', .inl run⟩
    · exact ⟨_, .inr stopped⟩
  grow := rfl
  create := rfl
  replace coherent known own _ := by
    obtain ⟨off, own', path, _⟩ := coherent.kept known
    rw [own] at own'
    cases own'
    exact Disk.replace_run (coherent.tab_lt path) own path
  release := rfl

theorem mapped_lowest : mapped.lowest ≤ dataOffset := Nat.zero_le _

theorem Disk.audit_run {d : Disk} {win : Fin 256} {tab : Nat} (e : Stop) (synced : d.Synced win tab) :
    Disk.audit e win tab d = ⟨.ok (), d, 0⟩ := by
  obtain ⟨off, own, path, len, size, _⟩ := synced
  rw [audit, bind_ok (get_run d)]
  simp only [own]
  exact check_true ⟨path, len, size⟩ _ _

/-- The check never fails. -/
theorem audited_faithful (e : Stop) : Faithful (audited e).guarded where
  lowest := rfl
  look := rfl
  store := rfl
  getTabMmap coherent path := by
    obtain ⟨d', run, a, b, c, rfl⟩ := Disk.getTabMmap_run coherent path
    refine ⟨_, (bind_ok run).trans (Disk.audit_run e ?_), a, b, c, rfl⟩
    exact (coherent.opening path).kept (.inr ⟨rfl, rfl⟩)
  beyond {_ d win} coherent := by
    rcases Disk.getTabMmap_beyond win coherent with ⟨d', run, a, b, c, rfl⟩ | stopped
    · have synced : ((d.creating win 2048).opening win 2048 d.nextFile).Synced win 2048 := by
        refine Disk.renewing_synced ?_ ?_
        · rw [Disk.creating_path, if_pos ⟨rfl, rfl⟩]
        · rw [Disk.creating_fresh]
          rfl
      exact ⟨_, .inl ((bind_ok run).trans (Disk.audit_run e synced))⟩
    · exact ⟨_, .inr (bind_error stopped)⟩
  grow := rfl
  create := rfl
  replace coherent known own none_ := by
    obtain ⟨d', run, a, b, c, rfl⟩ := guarded_faithful.replace coherent known own none_
    refine ⟨_, (bind_ok run).trans (Disk.audit_run e ?_), a, b, c, rfl⟩
    exact (coherent.replacing known own none_).kept known
  release := rfl

/-- What is known of an operation on the tables themselves is known of the code's, with how `F` says that `statvfs`
    lets the process end. -/
theorem ends_mapped {α : Type} {x y : Operation Disk α} {z : Operation Tables α} {s : State Disk} {t : State Tables}
    {R : α → State Disk → State Tables → Prop} {Q : α → State Tables → Prop} (F : (Nat → Nat) → Stop → Prop)
    (settled : Settled s t) (follows : Follows .below x y) (simulates : Simulates sizeLimit y z R s t)
    (ends : Ends sizeLimit z Q (fun e t' => F t'.shared.vfs e) t) (never : ∀ vfs, ¬ F vfs .below)
    (answers : ∀ vfs, Keeps (State.Answers vfs) x) (answers' : ∀ vfs, Keeps (State.Answers vfs) z) :
    Ends sizeLimit x (fun a s' => ∃ t', R a s' t' ∧ Q a t') (fun e s' => F s'.shared.vfs e) s := by
  have direct_ := ends.keeping (answers' t.shared.vfs) rfl
  have ran := (follows.ends_simulated simulates direct_ fun t' stops => never _ stops.1).keeping (answers s.shared.vfs) rfl
  refine ran.mono ?_ ?_
  · rintro a s' ⟨⟨t', related, post, _⟩, _⟩
    exact ⟨t', related, post⟩
  · rintro e s' ⟨⟨t', stops, same'⟩, same⟩
    rw [same, settled.tables_eq.2, ← same']
    exact stops

def State.initialTables (vfs : Nat → Nat) (tls : Tls) : State Tables := ⟨Shared.initial vfs tls, Disk.initial.tables⟩

theorem Disk.initial_path {win : Fin 256} {tab file : Nat} (path : Disk.initial.path win tab = some file) :
    tab = 0 ∧ file = win.val := by
  simp only [initial] at path
  split at path
  · rename_i first
    exact ⟨first, (Option.some.inj path).symm⟩
  · cases path

theorem Disk.initial_coherent : Disk.initial.Coherent fun _ _ => False := by
  refine ⟨fun path => ?_, fun path path' => ?_, fun path => ?_, fun _ => ⟨newTab_good, .inl rfl⟩, nofun, nofun, nofun, nofun,
    nofun, nofun, nofun, nofun, nofun, False.elim⟩
  · rw [(initial_path path).2]
    exact Fin.isLt _
  · obtain ⟨first, same⟩ := initial_path path
    obtain ⟨first', same'⟩ := initial_path path'
    exact ⟨Fin.ext (same'.symm.trans same), first'.trans first.symm⟩
  · rw [(initial_path path).1]
    decide

theorem initial_settled (vfs : Nat → Nat) (tls : Tls) :
    Settled (State.initial vfs tls) (State.initialTables vfs tls) := by
  refine ⟨layout (State.initialTables vfs tls), ⟨rfl, Disk.initial_coherent, rfl, rfl⟩, ?_, rfl⟩
  refine ⟨fun _ => (by decide : 1 ≤ 2048), fun _ _ => (by decide : 0 < 1), fun win tab => ?_⟩
  change ((Disk.initial.path win tab).map Disk.initial.files).isSome = true ↔ tab < 1
  simp only [Option.isSome_map, Disk.initial]
  split
  · rename_i first
    simp [first]
  · simp
    omega

end SharedHashFile.Store
