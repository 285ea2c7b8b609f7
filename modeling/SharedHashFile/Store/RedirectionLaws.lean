import SharedHashFile.Store.RowRuns

namespace SharedHashFile.Store

open Program

section Redirecting

variable {cfg : Config} {s : State Disk}

/-- What the sections of a run leave: the redirections, the assertions of a part, and what a part does. -/
theorem redirections_lawful (cfg : Config) (linkable : cfg.Linkable) (vfs : Nat → Nat) (tls : Tls) (sections : List Section)
    (s : State Disk) (attained : Attained cfg vfs tls sections s) (fits : ∀ part ∈ sections, part.Fits cfg) :
    s.Redirects ∧
      (∀ rest e, (∀ part ∈ rest, part.Fits cfg) → (runProcesses mapped cfg rest s).peak < 2^32 →
        runSectionsOr mapped cfg e Disk.switch rest s = runProcesses mapped cfg rest s) ∧
      ∀ part, part.Fits cfg → s.PartHalves cfg part := by
  have lawful := attained.lawful linkable fits
  rcases attained.inUse linkable fits with ⟨b, inUse⟩
  refine ⟨lawful.redirects, fun rest e fits within => ?_, fun part fits => inUse.partHalves linkable lawful fits⟩
  exact inUse.assertions_hold linkable lawful fits within e

end Redirecting

theorem smallStored_redirections : smallStored.Redirects ∧
    (∀ rest e, (∀ part ∈ rest, part.Fits smallConfig) → (runProcesses mapped smallConfig rest smallStored).peak < 2^32 →
      runSectionsOr mapped smallConfig e Disk.switch rest smallStored = runProcesses mapped smallConfig rest smallStored) ∧
      ∀ part, part.Fits smallConfig → smallStored.PartHalves smallConfig part :=
  redirections_lawful smallConfig (Config.linkable_variable rfl) (fun _ => 2^40) (smallTls []) smallSections smallStored
    smallStored_attained fun part _ => part.fits_variable rfl


section Counterexample

attribute [local irreducible] halved

/-- The first part of a window moves the odd redirections. -/
theorem halved_first : halved 0 1 (fun _ => 0) = fun i => i.val % 2 := by
  funext i
  have residue : Residue (fun _ => 0) 0 0 0 := ⟨by decide, by decide, fun i => by simp only [pow_zero, Nat.mod_one]⟩
  rw [residue.halved_at i, pow_zero, Nat.mod_one, if_pos rfl, Nat.div_one]
  split
  · rename_i odd
    exact odd.symm
  · rename_i even
    exact (Nat.mod_two_ne_one.mp even).symm

/-- Records of six bytes: the link of a deleted one reaches into the next. -/
def fourOne : Config := ⟨true, 4, 1, 1, oneFactor_lt⟩

def placedTls (tab row : Nat) (key : List UInt8) : Tls :=
  { smallTls key with hash := BitVec.ofNat 128 (tab * 2^16 + row * 2^32) }

def fillsRow : List Section :=
  (List.range 16).map fun i => ⟨1, placedTls 1 0 [0, 0, 0, UInt8.ofNat i], .put (.copy [1])⟩

def rowFilled : State Disk := (runProcesses mapped.guarded fourOne fillsRow (State.initial (fun _ => 2^40) (smallTls []))).state

def partsRow : Section := ⟨1, placedTls 0 0 [0, 0, 1, 0], .put (.copy [1])⟩

def partsSlot : Slot := partsRow.tls.hash.slot 0

def rowParted : State Disk := (tabPartRow mapped.guarded fourOne partsSlot.row partsSlot.win (rowFilled.tableOf partsSlot)
  (rowFilled.shared.wins partsSlot.win).tabsUsed (fun i => i.val % 2) (storedBy fourOne rowFilled partsRow (.copy [1])).state).state

/-- Three neighbours are deleted, and their records used again: the link of the second leads to row 124. -/
def spoilsLink : List Section :=
  [0, 1, 2].map (fun ref => ⟨1, placedTls 1 0 [], .find ({ (placedTls 1 0 []).hash.slot 0 with ref := ref } : Slot).uid .delete⟩) ++
    [1, 2, 3].map fun row => ⟨1, placedTls 1 row [0, 0, 0, UInt8.ofNat row], .put (.copy [1])⟩

def linkSpoilt : State Disk := (runProcesses mapped fourOne spoilsLink rowParted).state

theorem spoilt_run :
    Completes (2^32) (runProcesses mapped.guarded fourOne fillsRow) (State.initial (fun _ => 2^40) (smallTls [])) ∧
    (∀ part ∈ fillsRow, part.tls.hash.slot 0 = (placedTls 1 0 []).hash.slot 0) ∧
    ((placedTls 1 0 []).hash.slot 0).row = partsSlot.row ∧
    rowFilled.tableOf partsSlot = 0 ∧ (rowFilled.shared.wins partsSlot.win).tabsUsed = 1 ∧
    partsRow.PartsRow fourOne partsSlot.row (fun i => i.val % 2) rowFilled (.copy [1]) ∧
    Completes (2^32) (runProcesses mapped fourOne spoilsLink) rowParted ∧
    linkSpoilt.map.path partsSlot.win 1 = some 256 ∧
    ((linkSpoilt.map.files 256).tab.row ⟨124, by decide⟩ ⟨0, by decide⟩).pos ≠ 0 ∧
    (linkSpoilt.shared.wins partsSlot.win).tabs ((linkSpoilt.map.files 256).tab.row ⟨124, by decide⟩ ⟨0, by decide⟩).tab ≠ 1 := by
  decide +kernel

theorem rowFilled_attained : Attained fourOne (fun _ => 2^40) (smallTls []) fillsRow rowFilled := by
  have same : runProcesses mapped fourOne fillsRow (State.initial (fun _ => 2^40) (smallTls [])) = _ :=
    (runSections_follows mapped_lowest Disk.switch fillsRow).completes spoilt_run.1
  constructor
  · rw [same]
    exact spoilt_run.1.2
  · rw [same]
    exact spoilt_run.1.1
  · rw [same]
    rfl

theorem fillsRow_puts : ∀ part ∈ fillsRow, part.PutsIn partsSlot.row := by
  intro part member val _
  rw [spoilt_run.2.1 part member]
  exact spoilt_run.2.2.1

theorem rowParted_attained : Attained fourOne (fun _ => 2^40) (smallTls []) (fillsRow ++ [partsRow]) rowParted := by
  rcases spoilt_run with ⟨filled, _, _, home, used, parts, _⟩
  have kept : (mappedLedger 0).Lawful rowFilled ∧ rowFilled.map.tables.OnlyRow partsSlot.row :=
    guarded_onlyRow filled.1 fillsRow_puts
  rcases kept with ⟨lawful, only⟩
  have first : (rowFilled.shared.wins partsSlot.win).tabs = fun _ => 0 := by
    funext i
    have below := (lawful.redirected partsSlot.win).below i
    change (rowFilled.shared.wins partsSlot.win).tabs i < (rowFilled.shared.wins partsSlot.win).tabsUsed at below
    rw [used] at below
    exact Nat.lt_one_iff.mp below
  have halves : halved (rowFilled.tableOf partsSlot) (rowFilled.shared.wins partsSlot.win).tabsUsed
      (rowFilled.shared.wins partsSlot.win).tabs = fun i => i.val % 2 := by
    rw [home, used, first]
    exact halved_first
  rcases partsRow_completes lawful only rfl halves parts with ⟨completes, state⟩
  have state : (runProcesses mapped fourOne [partsRow] rowFilled).state = rowParted := state
  rw [← state]
  exact rowFilled_attained.append completes

theorem spoilt_fits : ∀ part ∈ fillsRow ++ [partsRow] ++ spoilsLink, part.Fits fourOne := by
  intro part member val put
  rcases List.mem_append.mp member with first | spoils
  · rcases List.mem_append.mp first with fills | parts
    · rcases List.mem_map.mp fills with ⟨i, _, rfl⟩
      cases put
      exact fun _ => ⟨rfl, rfl⟩
    · cases List.mem_singleton.mp parts
      cases put
      exact fun _ => ⟨rfl, rfl⟩
  · rcases List.mem_append.mp spoils with deletes | puts
    · rcases List.mem_map.mp deletes with ⟨ref, _, rfl⟩
      cases put
    · rcases List.mem_map.mp puts with ⟨row, _, rfl⟩
      cases put
      exact fun _ => ⟨rfl, rfl⟩

theorem not_redirections_lawful : ¬ ∀ (cfg : Config) (vfs : Nat → Nat) (tls : Tls) (sections : List Section) (s : State Disk),
    Attained cfg vfs tls sections s → (∀ part ∈ sections, part.Fits cfg) → s.Redirects := by
  intro all
  rcases spoilt_run with ⟨_, _, _, _, _, _, spoils, path, occupied, elsewhere⟩
  have redirects : linkSpoilt.Redirects := all _ _ _ _ _ (rowParted_attained.append spoils) spoilt_fits
  exact elsewhere (redirects.refs _ _ _ path _ _ occupied)

end Counterexample

end SharedHashFile.Store
