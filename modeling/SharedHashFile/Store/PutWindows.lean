import SharedHashFile.Store.FullRow
import SharedHashFile.Store.SectionSpec

namespace SharedHashFile.Store

open Program

def Elsewhere (win : Fin 256) (wins : Fin 256 → Win) (s : State Disk) : Prop :=
  ∀ other, other ≠ win → s.shared.wins other = wins other

section Puts

variable {α : Type} {cfg : Config} {win : Fin 256} {wins : Fin 256 → Win} {val : PutVal} {process : Nat} {tls : Tls}

theorem Keeps.elsewhere {x : Operation Disk α} (keeps : ∀ W, Keeps (Frozen W fun _ => True) x) :
    Keeps (Elsewhere win wins) x :=
  fun s same => (keeps (fun wins' => ∀ other, other ≠ win → wins' other = wins other) s ⟨same, trivial⟩).wins

theorem modifyWin_elsewhere (f : Win → Win) : Keeps (Elsewhere win wins) (modifyWin win f : Operation Disk Unit) := by
  intro s same other away
  change Function.update s.shared.wins win _ other = _
  rw [Function.update_of_ne away]
  exact same other away

theorem getWin_elsewhere : Keeps (Elsewhere win wins) (getWin win : Operation Disk Win) :=
  Keeps.elsewhere fun _ => Frozen.onShared_keeps fun _ => rfl

theorem partRedirects_elsewhere {tabOld tabNew : Nat} (items : List (Fin 2048)) (tabSwitch : Bool) :
    Keeps (Elsewhere win wins) (partRedirects win tabOld tabNew items tabSwitch : Operation Disk Unit) := by
  induction items generalizing tabSwitch with
  | nil => exact keeps_pure ()
  | cons tab2 rest ih =>
    refine keeps_bind getWin_elsewhere fun w => keeps_bind (keeps_check _ _) fun _ => ?_
    exact keeps_ite (fun _ => keeps_bind (modifyWin_elsewhere _) fun _ => ih _) fun _ => ih _

theorem partRef_elsewhere {tabOld tabNew : Nat} {row : Fin 512} {ref : Fin 16} :
    Keeps (Elsewhere win wins) (partRef mapped cfg win tabOld tabNew row ref) := by
  refine keeps_bind (Keeps.elsewhere fun _ => Frozen.tabAt_keeps) fun _ => keeps_when fun _ => ?_
  refine keeps_bind getWin_elsewhere fun _ => keeps_bind (keeps_check _ _) fun _ => keeps_bind (keeps_check _ _) fun _ => ?_
  apply keeps_ite
  · intro _
    exact keeps_bind (modifyWin_elsewhere _) fun _ => Keeps.elsewhere fun _ => Frozen.tabRefCopy_keeps mapped_steady
  · exact fun _ => modifyWin_elsewhere _

theorem tabShrink_elsewhere {tab : Nat} : Keeps (Elsewhere win wins) (tabShrink mapped cfg win tab) :=
  keeps_bind (modifyWin_elsewhere _) fun _ => Keeps.elsewhere fun _ =>
    Frozen.shrinkRest_keeps mapped_steady fun _ _ _ _ => trivial

theorem onMap_elsewhere {x : Program Stop Disk α} : Keeps (Elsewhere win wins) (onMap x) :=
  Keeps.elsewhere fun _ => Frozen.onMap_keeps fun _ _ => trivial

theorem tabPart_elsewhere {tabOld : Nat} : Keeps (Elsewhere win wins) (tabPart mapped cfg win tabOld) := by
  refine keeps_bind getWin_elsewhere fun w => keeps_bind onMap_elsewhere fun _ => keeps_bind onMap_elsewhere fun _ => ?_
  refine keeps_bind (modifyWin_elsewhere _) fun _ => keeps_bind (keeps_check _ _) fun _ => ?_
  refine keeps_bind (partRedirects_elsewhere _ _) fun _ => ?_
  refine keeps_bind (keeps_forM (fun _ => partRef_elsewhere) allRefs) fun _ => ?_
  exact tabShrink_elsewhere

theorem putSection_elsewhere (s : State Disk) :
    Elsewhere (s.shared.tls.hash.slot 0).win s.shared.wins (putSection mapped cfg val s).state := by
  have first : getTls s = ⟨.ok s.shared.tls, s, 0⟩ := rfl
  rw [putSection, state_after first]
  apply (keeps_bind getWin_elsewhere fun w => keeps_bind onMap_elsewhere fun _ => ?_ : Keeps _ _) s fun _ _ => rfl
  refine keeps_bind (Keeps.elsewhere fun _ => Frozen.tabAt_keeps) fun t => ?_
  split
  · refine keeps_bind (Keeps.elsewhere fun _ => Frozen.tabAppend_keeps mapped_steady) fun pos => ?_
    refine keeps_bind (Keeps.elsewhere fun _ => Frozen.modifyTab_keeps mapped_steady) fun _ => ?_
    refine keeps_bind (Keeps.elsewhere fun _ => Frozen.tabAt_keeps) fun _ => ?_
    refine keeps_bind (keeps_when fun _ => tabShrink_elsewhere) fun _ => ?_
    exact keeps_bind (Keeps.elsewhere fun _ => Frozen.modifyTls_keeps _) fun _ => keeps_pure _
  · exact keeps_bind tabPart_elsewhere fun _ => keeps_pure _

def Win.InUse (w : Win) : Prop := 0 < w.tabsUsed ∧ w.tabsUsed ≤ 2048

theorem keeps_ends {I : State Disk → Prop} {limit : Nat} {x : Operation Disk α} {s : State Disk} (keeps : Keeps I x)
    (holds : I s) : Ends limit x (fun _ => I) (fun _ _ => True) s := by
  intro _
  have after := keeps s holds
  split
  · exact after
  · trivial

def Uses (win : Fin 256) (used : Nat) (s : State Disk) : Prop := (s.shared.wins win).tabsUsed = used

theorem Keeps.uses {x : Operation Disk α} (keeps : ∀ used, Keeps (Steady used fun _ => True) x) {used : Nat} :
    Keeps (Uses win used) x := by
  intro s same
  exact ((keeps (fun win => (s.shared.wins win).tabsUsed) s ⟨fun _ => rfl, trivial⟩).used_eq win).trans same

theorem tabPart_inUse {limit tabOld : Nat} {s : State Disk} (inUse : (s.shared.wins win).InUse) :
    Ends limit (tabPart mapped cfg win tabOld) (fun _ s' => (s'.shared.wins win).InUse) (fun _ _ => True) s := by
  obtain ⟨used, used_eq⟩ : ∃ used, (s.shared.wins win).tabsUsed = used := ⟨_, rfl⟩
  have first : getWin win s = ⟨.ok (s.shared.wins win), s, 0⟩ := rfl
  unfold Win.InUse at inUse
  rw [tabPart]
  apply ends_after first
  rw [used_eq] at inUse ⊢
  apply ends_step (keeps_ends (Keeps.uses fun _ => onMap_keeps fun _ _ => trivial) used_eq) fun _ _ _ => trivial
  intro _ s1 used1
  apply ends_step (keeps_ends (Keeps.uses fun _ => onMap_keeps fun _ _ => trivial) used1) fun _ _ _ => trivial
  intro _ s2 used2
  apply ends_after (modifyWin_run s2 win _)
  obtain ⟨more, more_eq⟩ : ∃ more, (used + 1) % 2^32 = more := ⟨_, rfl⟩
  have counted : Uses win more
      (s2.withWin win fun w => { w with tabsParted := w.tabsParted + 1, tabsUsed := (w.tabsUsed + 1) % 2^32 }) := by
    have here : (s2.shared.wins win).tabsUsed = used := used2
    change (Function.update s2.shared.wins win _ win).tabsUsed = _
    rw [Function.update_self]
    change ((s2.shared.wins win).tabsUsed + 1) % 2^32 = _
    rw [here, more_eq]
  generalize s2.withWin win _ = s3 at counted ⊢
  apply ends_bind
  apply ends_check
  · intro room
    have inUse' (s' : State Disk) (after : Uses win more s') : (s'.shared.wins win).InUse := by
      unfold Win.InUse
      rw [after]
      omega
    generalize List.finRange 2048 = items
    generalize allRefs = refs
    apply ends_step (keeps_ends (Keeps.uses fun _ => partRedirects_keeps) counted) fun _ _ _ => trivial
    intro _ s4 used4
    apply ends_step (keeps_ends (keeps_forM (fun _ => Keeps.uses fun _ => partRef_keeps mapped_steady) refs) used4)
      fun _ _ _ => trivial
    intro _ s5 used5
    exact (keeps_ends (Keeps.uses fun _ => tabShrink_keeps mapped_steady fun _ _ _ _ => trivial) used5).mono
      (fun _ => inUse') fun _ _ _ => trivial
  · exact fun _ => trivial

theorem putSection_inUse {limit : Nat} {s : State Disk} (inUse : (s.shared.wins (s.shared.tls.hash.slot 0).win).InUse) :
    Ends limit (putSection mapped cfg val) (fun _ s' => (s'.shared.wins (s.shared.tls.hash.slot 0).win).InUse)
      (fun _ _ => True) s := by
  have first : getTls s = ⟨.ok s.shared.tls, s, 0⟩ := rfl
  rw [putSection]
  apply ends_after first
  dsimp only
  generalize s.shared.tls.hash.slot 0 = slot at inUse ⊢
  obtain ⟨used, used_eq⟩ : ∃ used, (s.shared.wins slot.win).tabsUsed = used := ⟨_, rfl⟩
  have keepsInUse (s' : State Disk) (after : Uses slot.win used s') : (s'.shared.wins slot.win).InUse := by
    unfold Win.InUse at inUse ⊢
    rw [after, ← used_eq]
    exact inUse
  apply ends_step (keeps_ends (Keeps.uses fun _ => getWin_keeps slot.win) used_eq) fun _ _ _ => trivial
  intro w s1 used1
  apply ends_step (keeps_ends (Keeps.uses fun _ => onMap_keeps fun _ _ => trivial) used1) fun _ _ _ => trivial
  intro _ s2 used2
  apply ends_step (keeps_ends (Keeps.uses fun _ => tabAt_keeps) used2) fun _ _ _ => trivial
  intro t s3 used3
  split
  · refine (keeps_ends (I := Uses slot.win used) ?_ used3).mono (fun _ => keepsInUse) fun _ _ _ => trivial
    refine keeps_bind (Keeps.uses fun _ => tabAppend_keeps mapped_steady) fun pos => ?_
    refine keeps_bind (Keeps.uses fun _ => modifyTab_keeps mapped_steady) fun _ => ?_
    refine keeps_bind (Keeps.uses fun _ => tabAt_keeps) fun _ => ?_
    refine keeps_bind (keeps_when fun _ => Keeps.uses fun _ => tabShrink_keeps mapped_steady fun _ _ _ _ => trivial) fun _ => ?_
    exact keeps_bind (Keeps.uses fun _ => modifyTls_keeps _) fun _ => keeps_pure _
  · apply ends_step (tabPart_inUse (keepsInUse s3 used3)) fun _ _ _ => trivial
    exact fun _ _ after => ends_pure after

theorem putPart_state (s : State Disk) :
    (runProcesses mapped cfg [⟨process, tls, .put val⟩] s).state =
      (putSection mapped cfg val (Section.enter ⟨process, tls, .put val⟩ Disk.switch s)).state := by
  rw [runProcesses, runSections_entered, state_before fun _ _ => rfl]
  exact state_before fun _ _ => rfl

theorem putPart_elsewhere (s : State Disk) : Elsewhere (tls.hash.slot 0).win s.shared.wins
    (runProcesses mapped cfg [⟨process, tls, .put val⟩] s).state := by
  rw [putPart_state]
  exact putSection_elsewhere (Section.enter ⟨process, tls, .put val⟩ Disk.switch s)

theorem putPart_inUse {s : State Disk} (inUse : (s.shared.wins (tls.hash.slot 0).win).InUse)
    (ended : (runProcesses mapped cfg [⟨process, tls, .put val⟩] s).value.isOk = true) :
    ((runProcesses mapped cfg [⟨process, tls, .put val⟩] s).state.shared.wins (tls.hash.slot 0).win).InUse := by
  rw [putPart_state]
  rw [runProcesses, runSections_entered] at ended
  rcases first_ended ended with ⟨_, ran⟩
  generalize entered : Section.enter ⟨process, tls, .put val⟩ Disk.switch s = s1 at ran ⊢
  have window : s1.shared.tls = tls ∧ s1.shared.wins = s.shared.wins := by
    rw [← entered]
    exact ⟨rfl, rfl⟩
  rw [← window.1, ← window.2] at inUse
  have ends := @putSection_inUse cfg val ((putSection mapped cfg val s1).peak + 1) s1 inUse
  have stored : ((Work.put val).run mapped cfg s1).value.isOk = true := by
    rw [ran]
    rfl
  rcases first_ended stored with ⟨_, value⟩
  have after := ends.ran value (Nat.lt_succ_self _)
  rw [window.1] at after
  exact after

end Puts

end SharedHashFile.Store
