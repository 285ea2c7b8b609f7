import SharedHashFile.Store.RowRuns

namespace SharedHashFile.Store

open Program

attribute [local irreducible] halved File.unreffed

/-- `tab_refs_used` is the number of the table's used refs. -/
def Tab.CountsRefs (t : Tab) : Prop := t.tabRefsUsed = allRefs.countP t.uses

instance (t : Tab) : Decidable t.CountsRefs := inferInstanceAs (Decidable (_ = _))

def State.RefsCounted (s : State Disk) : Prop :=
  ∀ win tab file, s.map.path win tab = some file → (s.map.files file).tab.CountsRefs

/-- A put of a record copies the table: the row is full, or the table is due for a shrink with the record in it. -/
def Tab.CopiedByPut (cfg : Config) (t : Tab) (row : Fin 512) (needed : Nat) : Prop :=
  (∀ ref, t.uses (row, ref) = true) ∨
    Tab.Shrinks { t with tabDataUsed := (t.tabDataUsed + needed) % 2^32, tabDataFree := t.freeAfter cfg needed }

def Work.CopiesTable (cfg : Config) (tls : Tls) (work : Work) (found : Prop) (t : Tab) : Prop :=
  match work with
  | .put val => t.CopiedByPut cfg (work.slot tls).row (cfg.recordLen tls.hashKey.length val.len)
  | .find _ what => what.Copies ∧ t.tabDataUsed / 4 < t.tabDataFree ∧ found

def Section.Finds (cfg : Config) (s : State Disk) (part : Section) : Prop :=
  ∃ tls, (runProcesses mapped cfg [part] s).value = .ok [(some retKeyFound, tls)]

def Section.CopiesTable (cfg : Config) (s : State Disk) (part : Section) : Prop :=
  let slot := part.work.slot part.tls
  ∃ file, s.map.path slot.win (s.tableOf slot) = some file ∧
    part.work.CopiesTable cfg part.tls (part.Finds cfg s) (s.map.files file).tab

section Counting

theorem countP_insert {α : Type} {l : List α} {p q : α → Bool} {a : α} (once : l.Nodup) (member : a ∈ l)
    (before : p a = false) (after : q a = true) (others : ∀ b, b ≠ a → q b = p b) : l.countP q = l.countP p + 1 := by
  induction l with
  | nil => cases member
  | cons b rest ih =>
    rw [List.nodup_cons] at once
    rw [List.countP_cons, List.countP_cons]
    by_cases here : b = a
    · subst here
      have same : rest.countP q = rest.countP p := by
        apply List.countP_congr
        intro c there
        rw [others c fun this => once.1 (this ▸ there)]
      rw [same, before, after]
      rfl
    · rcases List.mem_cons.mp member with this | there
      · exact absurd this.symm here
      · rw [ih once.2 there, others b here]
        omega

attribute [local irreducible] allRefs

theorem countP_allRefs_le (p : Fin 512 × Fin 16 → Bool) : allRefs.countP p ≤ 8192 := by
  have all := allRefs_nodup.length_le_card
  rw [Fintype.card_prod, Fintype.card_fin, Fintype.card_fin] at all
  exact Nat.le_trans List.countP_le_length all

variable {cfg : Config} {sized : Prop} {file file' : File} {slot : Slot} {rnd needed : Nat} {row : Fin 512} {ref : Fin 16}

theorem PutInto.countsRefs (into : PutInto sized cfg slot rnd needed file file') (holds : sized)
    (counts : file.tab.CountsRefs) : file'.tab.CountsRefs := by
  rcases into.row_eq with ⟨ref, pos, free, row_eq, placed⟩
  have uses (place : Fin 512 × Fin 16) :
      file'.tab.uses place = if place.1 = slot.row ∧ place.2 = ref then true else file.tab.uses place := by
    unfold Tab.uses
    rw [row_eq, Tab.setRef_row]
    split
    · exact decide_eq_true (placed holds)
    · rfl
  have more : allRefs.countP file'.tab.uses = allRefs.countP file.tab.uses + 1 := by
    apply countP_insert allRefs_nodup (mem_allRefs slot.row ref)
    · exact decide_eq_false fun used => used free
    · rw [uses, if_pos ⟨rfl, rfl⟩]
    · intro place elsewhere
      rw [uses, if_neg fun both => elsewhere (Prod.ext both.1 both.2)]
  have few := countP_allRefs_le file'.tab.uses
  unfold Tab.CountsRefs at counts ⊢
  rw [into.refsUsed, more, counts, Nat.mod_eq_of_lt]
  omega

theorem unreffed_countsRefs {len first : Nat} {data : ByteMemory.Memory} (used : file.tab.uses (row, ref) = true)
    (counts : file.tab.CountsRefs) : (file.unreffed row ref len data first).tab.CountsRefs := by
  have fewer : allRefs.countP file.tab.uses = allRefs.countP (file.unreffed row ref len data first).tab.uses + 1 := by
    apply countP_insert allRefs_nodup (mem_allRefs row ref)
    · rw [Bool.eq_false_iff]
      exact fun uses => (unreffed_uses.mp uses).1 ⟨rfl, rfl⟩
    · exact used
    · intro place elsewhere
      rw [Bool.eq_iff_iff, unreffed_uses]
      exact ⟨fun uses => ⟨fun both => elsewhere (Prod.ext both.1 both.2), uses⟩, And.right⟩
  have few := countP_allRefs_le file.tab.uses
  have refsUsed : (file.unreffed row ref len data first).tab.tabRefsUsed = (file.tab.tabRefsUsed + 2^32 - 1) % 2^32 := by
    rw [File.unreffed]
    rfl
  unfold Tab.CountsRefs at counts ⊢
  rw [refsUsed, counts, fewer]
  omega

theorem Filled.uses_eq {old : Tab} {goes : Fin 512 × Fin 16 → Bool} (filled : Filled sized cfg old goes allRefs file)
    (holds : sized) : file.tab.uses = goes := by
  funext place
  cases going : goes place with
  | false =>
    have none_ := filled.empty fun both => Bool.false_ne_true (going.symm.trans both.2)
    exact decide_eq_false fun used => used (congrArg Ref.pos none_)
  | true =>
    rcases filled.moved (mem_allRefs place.1 place.2) going with ⟨pos, same, placed⟩
    apply decide_eq_true
    rw [same]
    exact placed holds

/-- A copied ref is counted twice. -/
theorem Filled.not_countsRefs {old : Tab} {goes : Fin 512 × Fin 16 → Bool} (filled : Filled sized cfg old goes allRefs file)
    (holds : sized) {place : Fin 512 × Fin 16} (goes_ : goes place = true) : ¬ file.tab.CountsRefs := by
  have some_ : 0 < allRefs.countP goes := List.countP_pos_iff.mpr ⟨place, mem_allRefs place.1 place.2, goes_⟩
  have few := countP_allRefs_le goes
  unfold Tab.CountsRefs
  rw [filled.refsUsed, filled.uses_eq holds]
  omega

end Counting

section Effects

attribute [local irreducible] allRefs

def Tables.RefsCounted (T : Tables) : Prop := ∀ win tab file, T.table win tab = some file → file.tab.CountsRefs

variable {μ : Type} {m : Mapping μ} {limit : Nat} {b : Ledger m limit} {cfg : Config} {s s' : State μ} {slot : Slot}
  {win : Fin 256} {tab : Nat} {file file1 file' : File} {what : FindKeyAnd} {rnd needed code : Nat}

theorem opens_countsRefs (opens : b.Opens file file1) : file1.tab.CountsRefs ↔ file.tab.CountsRefs := by
  rcases b.opens_headed opens with ⟨tabSize, tabUsed, rfl⟩
  exact Iff.rfl

theorem Tables.RefsCounted.becomes (counted : (b.tables s.map).RefsCounted)
    (becomes : b.Becomes (only win tab) (.tab win tab) file' s s') :
    (b.tables s'.map).RefsCounted ↔ file'.tab.CountsRefs := by
  have here : (b.tables s'.map).table win tab = some file' := becomes.at_.there
  refine ⟨fun all => all win tab file' here, fun counts win' tab' other there => ?_⟩
  by_cases this : Ptr.tab win' tab' = .tab win tab
  · cases this
    rw [here] at there
    cases there
    exact counts
  · have same : (b.tables s'.map).table win' tab' = (b.tables s.map).table win' tab' := becomes.within.files _ this
    exact counted win' tab' other (same.symm.trans there)

/-- A table which is shrunk with a ref in it counts it twice. -/
theorem MaybeShrunk.countsRefs_iff {sized shrinks : Prop} {row : Fin 512} {ref : Fin 16}
    (maybe : MaybeShrunk sized cfg shrinks file file') (holds : sized) (counts : file.tab.CountsRefs)
    (used : file.tab.uses (row, ref) = true) : file'.tab.CountsRefs ↔ ¬ shrinks := by
  rcases maybe with ⟨due, filled⟩ | ⟨early, rfl⟩
  · exact iff_of_false (filled.not_countsRefs holds used) fun early => early due
  · exact iff_of_true counts early

theorem Tables.RefsCounted.stored (sized : b.sized) (counted : (b.tables s.map).RefsCounted)
    (stored : b.StoredIn cfg slot rnd needed s s') (there : (b.tables s.map).table slot.win (s.tableOf slot) = some file) :
    (b.tables s'.map).RefsCounted ↔ ¬ file.tab.CopiedByPut cfg slot.row needed := by
  rcases stored with ⟨file, file1, file2, file', there', opens, into, maybe, becomes⟩
  rw [there] at there'
  cases there'
  have counts1 := (opens_countsRefs opens).mpr (counted _ _ file there)
  rcases into.row_eq with ⟨ref, pos, free, row_eq, placed⟩
  have used : file2.tab.uses (slot.row, ref) = true := by
    unfold Tab.uses
    rw [row_eq, Tab.setRef_row, if_pos ⟨rfl, rfl⟩]
    exact decide_eq_true (placed sized)
  rw [counted.becomes becomes, maybe.countsRefs_iff sized (into.countsRefs sized counts1) used]
  have shrinks : file2.tab.Shrinks ↔ Tab.Shrinks { file.tab with
      tabDataUsed := (file.tab.tabDataUsed + needed) % 2^32, tabDataFree := file.tab.freeAfter cfg needed } := by
    rcases b.opens_headed opens with ⟨tabSize, tabUsed, rfl⟩
    unfold Tab.Shrinks
    rw [into.dataUsed, into.freed]
    rfl
  have room : ¬ ∀ ref, file.tab.uses (slot.row, ref) = true := by
    intro full
    have occupied := full ref
    rw [← Ledger.opens_uses opens] at occupied
    exact of_decide_eq_true occupied free
  rw [shrinks, Tab.CopiedByPut]
  exact not_congr ⟨.inr, fun copied => copied.resolve_left room⟩

/-- The refs of a parted table are counted twice, wherever they are copied to. -/
theorem Tables.RefsCounted.parted (sized : b.sized) (lawful : b.Lawful s) (parted : b.PartedIn cfg slot s s') :
    ¬ (b.tables s'.map).RefsCounted := by
  rcases parted with ⟨file, file1, there, opens, full, parted⟩
  have uses := full 0
  have before := uses
  rw [Ledger.opens_uses opens] at before
  have redirected := lawful.refs _ _ file there slot.row 0 before
  rw [← Ledger.opens_row opens] at redirected
  rcases parted.old with ⟨fileOld, thereOld, filledOld⟩
  rcases parted.new with ⟨fileNew, thereNew, filledNew⟩
  intro counted
  generalize s.tableOf slot = tab at *
  rcases @halved_cases tab (s.shared.wins slot.win).tabsUsed (s.shared.wins slot.win).tabs (file1.tab.row slot.row 0).tab
    with same | moved
  · have goes : file1.tab.usesIn (halved tab (s.shared.wins slot.win).tabsUsed (s.shared.wins slot.win).tabs) tab
        (slot.row, 0) = true := by
      unfold Tab.usesIn
      rw [uses, same, redirected]
      exact decide_eq_true rfl
    exact filledOld.not_countsRefs sized goes (counted _ _ fileOld thereOld)
  · have goes : file1.tab.usesIn (halved tab (s.shared.wins slot.win).tabsUsed (s.shared.wins slot.win).tabs)
        (s.shared.wins slot.win).tabsUsed (slot.row, 0) = true := by
      unfold Tab.usesIn
      rw [uses, moved.2]
      exact decide_eq_true rfl
    exact filledNew.not_countsRefs sized goes (counted _ _ fileNew thereNew)

theorem FindKeyAnd.Acts.countsRefs_iff {sized : Prop} {row : Fin 512} {ref : Fin 16}
    (acts : what.Acts sized cfg row ref file file') (holds : sized) (counts : file.tab.CountsRefs)
    (used : file.tab.uses (row, ref) = true) :
    file'.tab.CountsRefs ↔ ¬ (what.Copies ∧ file.tab.tabDataUsed / 4 < file.tab.tabDataFree) := by
  have copied (maybe : MaybeShrunk sized cfg (file.tab.tabDataUsed / 4 < file.tab.tabDataFree) file file') (copies : what.Copies) :
      file'.tab.CountsRefs ↔ ¬ (what.Copies ∧ file.tab.tabDataUsed / 4 < file.tab.tabDataFree) := by
    rw [maybe.countsRefs_iff holds counts used, and_iff_right copies]
  cases what with
  | copyKey => exact copied acts trivial
  | copyVal => exact copied acts trivial
  | delete =>
    refine iff_of_true ?_ fun copies => copies.1
    rcases acts with rfl | ⟨len, data, first, rfl⟩
    · exact counts
    · exact unreffed_countsRefs used counts
  | addr | atomAdd | update =>
    refine iff_of_true ?_ fun copies => copies.1
    rcases acts with ⟨data, rfl⟩
    exact counts

theorem Tables.RefsCounted.found (sized : b.sized) (counted : (b.tables s.map).RefsCounted)
    (found : b.FoundIn cfg slot what code s s') (there : (b.tables s.map).table slot.win (s.tableOf slot) = some file) :
    (b.tables s'.map).RefsCounted ↔
      ¬ (what.Copies ∧ file.tab.tabDataUsed / 4 < file.tab.tabDataFree ∧ code = retKeyFound) := by
  rcases found with ⟨file, file1, file', there', opens, becomes, effect⟩
  rw [there] at there'
  cases there'
  have counts1 := (opens_countsRefs opens).mpr (counted _ _ file there)
  rw [counted.becomes becomes]
  rcases effect with ⟨rfl, rfl⟩ | ⟨ref, used, acts, reports⟩
  · exact iff_of_true counts1 fun copied => absurd copied.2.2 (by decide)
  · rw [acts.countsRefs_iff sized counts1 used]
    rcases b.opens_headed opens with ⟨tabSize, tabUsed, rfl⟩
    exact not_congr ⟨fun copied => ⟨copied.1, copied.2, reports copied.1⟩, fun copied => ⟨copied.1, copied.2.1⟩⟩

theorem Tables.RefsCounted.effect {tls : Tls} {work : Work} {result : Option Nat} (sized : b.sized) (lawful : b.Lawful s)
    (counted : (b.tables s.map).RefsCounted) (effect : b.Effect cfg tls work result s s')
    (there : (b.tables s.map).table (work.slot tls).win (s.tableOf (work.slot tls)) = some file) :
    (b.tables s'.map).RefsCounted ↔ ¬ work.CopiesTable cfg tls (result = some retKeyFound) file.tab := by
  cases work with
  | put val =>
    rcases effect with ⟨_, stored⟩ | ⟨_, parted⟩
    · exact Tables.RefsCounted.stored sized counted stored there
    · refine iff_of_false (Tables.RefsCounted.parted sized lawful parted) fun spared => spared (.inl ?_)
      rcases parted with ⟨file, file1, there', opens, full, _⟩
      rw [there] at there'
      cases there'
      rw [← Ledger.opens_uses opens]
      exact full
  | find uid what =>
    rcases effect with ⟨code, rfl, found⟩
    rw [Tables.RefsCounted.found sized counted found there, Work.CopiesTable, Option.some_inj]

end Effects

section Sections

variable {cfg : Config} {s : State Disk} {t : State Tables} {part : Section} {result : Option Nat} {tls : Tls}

abbrev tablesLedger : Ledger direct sizeLimit := directLedger sizeLimit (Nat.le_refl _)

theorem State.refsCounted_tables : s.RefsCounted ↔ s.map.tables.RefsCounted := by
  constructor
  · intro counted win tab file there
    rcases Option.map_eq_some_iff.mp there with ⟨off, path, rfl⟩
    exact counted win tab off path
  · intro counted win tab off path
    exact counted win tab _ (Option.map_eq_some_iff.mpr ⟨off, path, rfl⟩)

/-- Files and mappings of a store in use, whose tables are lawful by themselves. -/
structure Regular (cfg : Config) (s : State Disk) (t : State Tables) : Prop where
  settled : Settled s t
  ok : ∃ b, StoreOk cfg t b
  lawful : tablesLedger.Lawful t

theorem Regular.runs_guarded (regular : Regular cfg s t) (linkable : cfg.Linkable) (fits : part.Fits cfg)
    (within : (runProcesses mapped cfg [part] s).peak < 2^32) :
    runProcesses mapped cfg [part] s = runProcesses mapped.guarded cfg [part] s := by
  rcases regular.ok with ⟨b, ok⟩
  exact InUse.runs_guarded ⟨t, regular.settled, ok⟩ linkable (List.forall_mem_singleton.mpr fits) within

theorem Regular.section_ran (regular : Regular cfg s t) (linkable : cfg.Linkable) (fits : part.Fits cfg)
    (within : (runProcesses mapped cfg [part] s).peak < 2^32)
    (value : (runProcesses mapped cfg [part] s).value = .ok [(result, tls)]) : ∃ t',
      Regular cfg (runProcesses mapped cfg [part] s).state t' ∧
        tablesLedger.Effect cfg part.tls part.work result (part.enter (fun _ T => T) t) t' := by
  have guarded := regular.runs_guarded linkable fits within
  rw [guarded] at within value ⊢
  rcases regular with ⟨settled, ⟨b, ok⟩, lawful⟩
  rcases runSections_simulates guarded_faithful settled (.inl within) with ⟨peak, same, related⟩
  have ends := @Ledger.section_ends _ _ _ tablesLedger cfg t .internal part lawful
  rw [runSectionsOr_internal] at ends
  have kept := runSections_kept linkable ok (List.forall_mem_singleton.mpr fits)
  have below : (runSections direct cfg (fun _ T => T) [part] t).peak < sizeLimit := peak ▸ within
  rcases Ends.ran ends (same.symm.trans value) below with ⟨result', tls', same', _, effect⟩
  have kept := Ends.ran kept (same.symm.trans value) below
  cases same'
  exact ⟨_, ⟨related _ value, kept.ok, (lawful.enter part).effect effect⟩, effect⟩

/-- A section leaves the refs counted if it copies no table. -/
theorem Regular.section_counted (regular : Regular cfg s t) (linkable : cfg.Linkable) (fits : part.Fits cfg)
    (counted : s.RefsCounted) (within : (runProcesses mapped cfg [part] s).peak < 2^32)
    (value : (runProcesses mapped cfg [part] s).value = .ok [(result, tls)]) :
    (runProcesses mapped cfg [part] s).state.RefsCounted ↔ ¬ part.CopiesTable cfg s := by
  rcases regular.section_ran linkable fits within value with ⟨t', regular', effect⟩
  rcases regular.settled.tables_eq with ⟨tables, shared⟩
  rw [State.refsCounted_tables, regular'.settled.tables_eq.1]
  have before : t.map.RefsCounted := tables ▸ State.refsCounted_tables.mp counted
  rcases regular.lawful.at_slot (part.work.slot part.tls) with ⟨file, there⟩
  apply (Tables.RefsCounted.effect (b := tablesLedger) trivial (regular.lawful.enter part) before effect there).trans
  have finds : part.Finds cfg s ↔ result = some retKeyFound := by
    unfold Section.Finds
    rw [value]
    constructor
    · rintro ⟨_, same⟩
      cases same
      rfl
    · rintro rfl
      exact ⟨tls, rfl⟩
  have there' : (s.map.path (part.work.slot part.tls).win (s.tableOf (part.work.slot part.tls))).map s.map.files =
      some file := by
    rw [State.tableOf, shared]
    exact (congrFun (congrFun (congrArg Tables.table tables) _) _).trans there
  rcases Option.map_eq_some_iff.mp there' with ⟨off, path, rfl⟩
  unfold Section.CopiesTable
  dsimp only
  rw [path, finds]
  refine not_congr ⟨fun copies => ⟨off, rfl, copies⟩, ?_⟩
  rintro ⟨_, same, copies⟩
  cases same
  exact copies

theorem initialTables_lawful (vfs : Nat → Nat) (tls : Tls) : tablesLedger.Lawful (State.initialTables vfs tls) :=
  Ledger.initial_lawful _ vfs tls trivial rfl

theorem initial_regular (cfg : Config) (vfs : Nat → Nat) (tls : Tls) :
    Regular cfg (State.initial vfs tls) (State.initialTables vfs tls) :=
  ⟨initial_settled vfs tls, ⟨_, initial_storeOk cfg vfs tls⟩, initialTables_lawful vfs tls⟩

theorem Attained.regular {vfs : Nat → Nat} {first : Tls} {sections : List Section}
    (attained : Attained cfg vfs first sections s) (linkable : cfg.Linkable) (fits : ∀ part ∈ sections, part.Fits cfg) :
    ∃ t, Regular cfg s t := by
  have guarded := attained.runs_guarded linkable fits
  rcases attained with ⟨within, ended, rfl⟩
  rw [guarded] at within ended ⊢
  have ends := @Ledger.sections_ends _ _ _ tablesLedger cfg (State.initialTables vfs first) .internal (fun _ => True) sections
    (initialTables_lawful vfs first) trivial fun _ _ _ _ _ _ _ _ => trivial
  rw [runSectionsOr_internal] at ends
  have kept := runSections_kept linkable (initial_storeOk cfg vfs first) fits
  have done := (runSections_simulates guarded_faithful (initial_settled vfs first)).ends (ends.and kept) within
  cases value : (runProcesses mapped.guarded cfg sections (State.initial vfs first)).value with
  | ok results =>
    rw [value] at done
    rcases done with ⟨t, settled, ⟨lawful, _⟩, kept⟩
    exact ⟨t, settled, kept.ok, lawful⟩
  | error e =>
    rw [value] at ended
    cases ended

theorem initial_refsCounted (vfs : Nat → Nat) (tls : Tls) : (State.initial vfs tls).RefsCounted := by
  intro win tab file path
  have none_ : allRefs.countP emptyTab.uses = 0 := List.countP_eq_zero.mpr fun _ _ => Bool.false_ne_true
  exact none_.symm

/-- The refs of all tables are counted on the way of a run if no section on it copies a table. -/
theorem Regular.run_counted {sections : List Section} {results : List (Option Nat × Tls)} (regular : Regular cfg s t)
    (linkable : cfg.Linkable) (fits : ∀ part ∈ sections, part.Fits cfg) (counted : s.RefsCounted)
    (within : (runProcesses mapped cfg sections s).peak < 2^32)
    (value : (runProcesses mapped cfg sections s).value = .ok results) :
    (AtEach cfg (fun s _ => s.RefsCounted) sections s ∧ (runProcesses mapped cfg sections s).state.RefsCounted) ↔
      AtEach cfg (fun s part => ¬ part.CopiesTable cfg s) sections s := by
  induction sections generalizing s t results with
  | nil => exact iff_of_true ⟨trivial, counted⟩ trivial
  | cons part rest ih =>
    rcases runSections_cons value with ⟨result, tls, others, rfl, first, later, state⟩
    have within1 := lt_of_le_of_lt runSections_peak_first within
    have within2 := lt_of_le_of_lt (runSections_peak_rest first) within
    have fits1 := fits part List.mem_cons_self
    have fits2 : ∀ other ∈ rest, other.Fits cfg := fun other member => fits other (List.mem_cons_of_mem _ member)
    have step := regular.section_counted linkable fits1 counted within1 first
    rcases regular.section_ran linkable fits1 within1 first with ⟨t', regular', _⟩
    have ended : (runProcesses mapped cfg [part] s).value.isOk = true := by
      rw [runProcesses, first]
      rfl
    change (AtEach cfg _ (part :: rest) s ∧ (runSections mapped cfg Disk.switch (part :: rest) s).state.RefsCounted) ↔ _
    rw [state]
    constructor
    · rintro ⟨each, last⟩
      have counted1 : (runProcesses mapped cfg [part] s).state.RefsCounted := by
        cases rest with
        | nil => exact last
        | cons other rest => exact (each.2 ended).1
      exact ⟨step.mp counted1, fun _ => (ih regular' fits2 counted1 within2 later).mp ⟨each.2 ended, last⟩⟩
    · rintro ⟨spared, each⟩
      have after := (ih regular' fits2 (step.mpr spared) within2 later).mpr (each ended)
      exact ⟨⟨counted, fun _ => after.1⟩, after.2⟩

end Sections

/-- The refs of all tables are counted in all states of a run if and only if none of its sections copies a table. -/
theorem refsCounted_iff (cfg : Config) (linkable : cfg.Linkable) (vfs : Nat → Nat) (tls : Tls) (sections : List Section)
    (s : State Disk) (attained : Attained cfg vfs tls sections s) (fits : ∀ part ∈ sections, part.Fits cfg) :
    (AtEach cfg (fun s _ => s.RefsCounted) sections (State.initial vfs tls) ∧ s.RefsCounted) ↔
      AtEach cfg (fun s part => ¬ part.CopiesTable cfg s) sections (State.initial vfs tls) := by
  rcases attained with ⟨within, ended, rfl⟩
  cases value : (runProcesses mapped cfg sections (State.initial vfs tls)).value with
  | ok results =>
    exact (initial_regular cfg vfs tls).run_counted linkable fits (initial_refsCounted vfs tls) within value
  | error e =>
    rw [value] at ended
    cases ended

theorem smallStored_refsCounted :
    (AtEach smallConfig (fun s _ => s.RefsCounted) smallSections (State.initial (fun _ => 2^40) (smallTls [])) ∧
      smallStored.RefsCounted) ↔
      AtEach smallConfig (fun s part => ¬ part.CopiesTable smallConfig s) smallSections
        (State.initial (fun _ => 2^40) (smallTls [])) :=
  refsCounted_iff smallConfig (Config.linkable_variable rfl) (fun _ => 2^40) (smallTls []) smallSections smallStored
    smallStored_attained fun part _ => part.fits_variable rfl

section Counterexample

attribute [local irreducible] allRefs

def remadeBy : List Section := [⟨1, smallTls [1], .put (.copy [10])⟩, ⟨1, smallTls [1], .find uidNone .delete⟩]

def remade : State Disk := (runProcesses mapped smallConfig remadeBy (State.initial (fun _ => 2^40) (smallTls []))).state

def remakes : Section := ⟨1, smallTls [2], .put (.copy [20])⟩

def remakesSlot : Slot := remakes.tls.hash.slot 0

theorem remakes_run :
    Completes (2^32) (runProcesses mapped.guarded smallConfig remadeBy) (State.initial (fun _ => 2^40) (smallTls [])) ∧
    (∀ part ∈ remadeBy, (part.tls.hash.slot 0).row = remakesSlot.row) ∧
    remakes.ShrinksRow smallConfig remakesSlot.row remade (.copy [20]) ∧
    remade.map.path remakesSlot.win (remade.tableOf remakesSlot) = some remakesSlot.win.val ∧
    Tab.Shrinks { (remade.map.files remakesSlot.win.val).tab with
      tabDataUsed := ((remade.map.files remakesSlot.win.val).tab.tabDataUsed +
        smallConfig.recordLen remakes.tls.hashKey.length 1) % 2^32
      tabDataFree := (remade.map.files remakesSlot.win.val).tab.freeAfter smallConfig
        (smallConfig.recordLen remakes.tls.hashKey.length 1) } := by
  decide +kernel

theorem remade_guarded : runProcesses mapped smallConfig remadeBy (State.initial (fun _ => 2^40) (smallTls [])) =
    runProcesses mapped.guarded smallConfig remadeBy (State.initial (fun _ => 2^40) (smallTls [])) :=
  (runSections_follows mapped_lowest Disk.switch remadeBy).completes remakes_run.1

theorem remade_attained : Attained smallConfig (fun _ => 2^40) (smallTls []) remadeBy remade := by
  refine ⟨?_, ?_, rfl⟩
  · rw [remade_guarded]
    exact remakes_run.1.2
  · rw [remade_guarded]
    exact remakes_run.1.1

theorem remakes_completes : Completes (2^32) (runProcesses mapped smallConfig [remakes]) remade := by
  rcases remakes_run with ⟨ended, puts, shrinks, _⟩
  have kept := @guarded_onlyRow smallConfig remakesSlot.row _ _ remadeBy ended.1 fun part member _ _ => puts part member
  rw [← remade_guarded] at kept
  exact shrinksRow_completes kept.1 kept.2 rfl rfl shrinks

theorem remakes_copies : remakes.CopiesTable smallConfig remade :=
  ⟨remakesSlot.win.val, remakes_run.2.2.2.1, .inr remakes_run.2.2.2.2⟩

theorem not_refsCounted : ¬ ∀ (cfg : Config) (vfs : Nat → Nat) (tls : Tls) (sections : List Section) (s : State Disk),
    Attained cfg vfs tls sections s → s.RefsCounted := by
  intro all
  have linkable : smallConfig.Linkable := Config.linkable_variable rfl
  have counted := all smallConfig (fun _ => 2^40) (smallTls []) _ _ remade_attained
  have after := all smallConfig (fun _ => 2^40) (smallTls []) _ _ (remade_attained.append remakes_completes)
  rcases remade_attained.regular linkable (fun part _ => part.fits_variable rfl) with ⟨t, regular⟩
  rcases remakes_completes.ended with ⟨results, value⟩
  rcases runSections_cons value with ⟨result, tls, others, rfl, first, _, _⟩
  have kept := regular.section_counted linkable (remakes.fits_variable rfl) counted remakes_completes.2 first
  exact kept.mp after remakes_copies

end Counterexample

end SharedHashFile.Store
