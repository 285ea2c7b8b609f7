import SharedHashFile.Store.Reachable

namespace SharedHashFile.Store

open Program

/-- What `shf_find_key_internal` does to what is bound, from which variables and to which. -/
def FindKeyAnd.Outcome (what : FindKeyAnd) (b : Bindings) (uid : Nat) (tls : Tls) (result : Nat) (tls' : Tls)
    (b' : Bindings) : Prop :=
  match b.locate uid tls.hash tls.hashKey with
  | none => result = retKeyNone ∧ b' = b ∧ ∃ keyAddr, tls' = tls.lookedUp uid none keyAddr none
  | some place => ∃ binding keyAddr valAddr, b place = some binding ∧
      (result, tls', b' place) = what.effect (tls.lookedUp uid (some place) keyAddr valAddr) binding ∧
      b' = Function.update b place (b' place)

/-- What one pass of `shf_put_key_val` does to what is bound. -/
def PutOutcome (b : Bindings) (val : PutVal) (tls : Tls) (result : Option Nat) (tls' : Tls) (b' : Bindings) : Prop :=
  (result = none ∧ b' = b ∧ tls' = tls) ∨
    ∃ ref, result = some retKeyPut ∧ b (tls.hash.slot ref) = none ∧
      b' = Function.update b (tls.hash.slot ref) (some ⟨tls.hash.rnd, tls.hashKey, val.bytes⟩) ∧
      tls' = { tls with uid := (tls.hash.slot ref).uid }

def Work.Outcome (b : Bindings) (tls : Tls) (result : Option Nat) (tls' : Tls) (b' : Bindings) : Work → Prop
  | .put val => PutOutcome b val tls result tls' b'
  | .find uid what => ∃ code, result = some code ∧ what.Outcome b uid tls code tls' b'

section Splitting

variable {μ : Type} {m : Mapping μ} {cfg : Config} {switch : Nat → μ → μ} {part : Section} {rest : List Section} {s : State μ}

def Section.enter (part : Section) (switch : Nat → μ → μ) (s : State μ) : State μ :=
  ⟨{ s.shared with tls := part.tls }, switch part.process s.map⟩

theorem runSections_entered : runSections m cfg switch (part :: rest) s = (do
    let result ← part.work.run m cfg
    let tls ← getTls
    let results ← runSections m cfg switch rest
    pure ((result, tls) :: results) : Operation μ (List (Option Nat × Tls))) (part.enter switch s) := by
  have switched : onMap (modify (switch part.process)) s = ⟨.ok (), ⟨s.shared, switch part.process s.map⟩, 0⟩ := rfl
  have entered : modifyTls (fun _ => part.tls) ⟨s.shared, switch part.process s.map⟩ =
    ⟨.ok (), part.enter switch s, 0⟩ := rfl
  rw [runSections, bind_ok switched, bind_ok entered]

theorem runSections_cons {results : List (Option Nat × Tls)}
    (value : (runSections m cfg switch (part :: rest) s).value = .ok results) : ∃ result tls others,
      results = (result, tls) :: others ∧ (runSections m cfg switch [part] s).value = .ok [(result, tls)] ∧
      (runSections m cfg switch rest (runSections m cfg switch [part] s).state).value = .ok others ∧
      (runSections m cfg switch (part :: rest) s).state =
        (runSections m cfg switch rest (runSections m cfg switch [part] s).state).state := by
  rw [runSections_entered] at value ⊢
  rw [runSections_entered]
  generalize part.enter switch s = s1 at value ⊢
  rcases first_ended (congrArg Except.isOk value) with ⟨result, work⟩
  have after (others : List Section) := bind_ended (f := fun result => do
    let tls ← getTls
    let results ← runSections m cfg switch others
    pure ((result, tls) :: results)) work
  rw [(after rest).1] at value
  rw [(after rest).2, (after []).1, (after []).2]
  generalize (part.work.run m cfg s1).state = s2 at value ⊢
  have tls : getTls s2 = ⟨.ok s2.shared.tls, s2, 0⟩ := rfl
  rw [bind_ok tls] at value ⊢
  rw [bind_ok tls]
  rcases first_ended (congrArg Except.isOk value) with ⟨others, done⟩
  rcases bind_ended (f := fun others => (pure ((result, s2.shared.tls) :: others) : Operation μ _)) done with ⟨value2, state2⟩
  rw [value2] at value
  cases value
  exact ⟨result, s2.shared.tls, others, rfl, rfl, done, state2⟩

theorem runSections_peak_first :
    (runSections m cfg switch [part] s).peak ≤ (runSections m cfg switch (part :: rest) s).peak := by
  rw [runSections_entered, runSections_entered]
  generalize part.enter switch s = s1
  cases work : (part.work.run m cfg s1).value with
  | error e => rw [bind_peak_stopped work, bind_peak_stopped work]
  | ok result =>
    rw [bind_peak work, bind_peak work]
    exact Nat.max_le.mpr ⟨Nat.le_max_left _ _, Nat.zero_le _⟩

theorem runSections_peak_rest {results : List (Option Nat × Tls)}
    (ended : (runSections m cfg switch [part] s).value = .ok results) :
    (runSections m cfg switch rest (runSections m cfg switch [part] s).state).peak ≤
      (runSections m cfg switch (part :: rest) s).peak := by
  rw [runSections_entered] at ended ⊢
  rw [runSections_entered]
  generalize part.enter switch s = s1 at ended ⊢
  rcases first_ended (congrArg Except.isOk ended) with ⟨result, work⟩
  rw [bind_peak work, (bind_ended (f := fun result => do
    let tls ← getTls
    let results ← runSections m cfg switch []
    pure ((result, tls) :: results)) work).2]
  generalize (part.work.run m cfg s1).state = s2
  have tls : getTls s2 = ⟨.ok s2.shared.tls, s2, 0⟩ := rfl
  rw [bind_ok tls, bind_ok tls]
  exact Nat.le_trans (peak_first_le _ _ _) (Nat.le_max_right _ _)

theorem runSections_completes_cons {limit : Nat} (first : Completes limit (runSections m cfg switch [part]) s)
    (later : Completes limit (runSections m cfg switch rest) (runSections m cfg switch [part] s).state) :
    Completes limit (runSections m cfg switch (part :: rest)) s := by
  unfold Completes at first later ⊢
  rw [runSections_entered] at first later ⊢
  generalize part.enter switch s = s1 at first later ⊢
  rcases first_ended first.1 with ⟨result, work⟩
  have positive : 0 < limit := Nat.lt_of_le_of_lt (Nat.zero_le _) first.2
  have completes : Completes limit (part.work.run m cfg) s1 := by
    refine ⟨?_, lt_of_le_of_lt (peak_first_le _ _ _) first.2⟩
    rw [work]
    rfl
  rw [(bind_ended (f := fun result => do
    let tls ← getTls
    let results ← runSections m cfg switch []
    pure ((result, tls) :: results)) work).2] at later
  apply completes_bind completes
  intro result' _
  apply completes_bind ⟨rfl, positive⟩
  intro tls _
  exact completes_bind later fun _ _ => completes_pure positive

theorem runSections_append {sections more : List Section} {limit : Nat}
    (run : Completes limit (runSections m cfg switch sections) s)
    (last : Completes limit (runSections m cfg switch more) (runSections m cfg switch sections s).state) :
    Completes limit (runSections m cfg switch (sections ++ more)) s ∧
      (runSections m cfg switch (sections ++ more) s).state =
        (runSections m cfg switch more (runSections m cfg switch sections s).state).state := by
  induction sections generalizing s with
  | nil => exact ⟨last, rfl⟩
  | cons next rest ih =>
    rcases run.ended with ⟨results, value⟩
    rcases runSections_cons value with ⟨result, tls, others, rfl, first, later, state⟩
    have first' : Completes limit (runSections m cfg switch [next]) s :=
      ⟨congrArg Except.isOk first, lt_of_le_of_lt runSections_peak_first run.2⟩
    have later' : Completes limit (runSections m cfg switch rest) (runSections m cfg switch [next] s).state :=
      ⟨congrArg Except.isOk later, lt_of_le_of_lt (runSections_peak_rest first) run.2⟩
    rw [state] at last ⊢
    rcases ih later' last with ⟨completes, same⟩
    have whole : Completes limit (runSections m cfg switch (next :: (rest ++ more))) s :=
      runSections_completes_cons first' completes
    refine ⟨whole, ?_⟩
    rcases whole.ended with ⟨_, value'⟩
    rcases runSections_cons value' with ⟨_, _, _, _, _, _, state'⟩
    exact state'.trans same

end Splitting

theorem Attained.append {cfg : Config} {vfs : Nat → Nat} {tls : Tls} {sections more : List Section} {s : State Disk}
    (attained : Attained cfg vfs tls sections s) (last : Completes (2^32) (runProcesses mapped cfg more) s) :
    Attained cfg vfs tls (sections ++ more) (runProcesses mapped cfg more s).state := by
  rcases attained with ⟨within, ended, rfl⟩
  rcases runSections_append ⟨ended, within⟩ last with ⟨completes, state⟩
  exact ⟨completes.2, completes.1, state⟩

def Work.Ready (cfg : Config) (tls : Tls) : Work → Prop
  | .put val => cfg.Accepts tls.hashKey val
  | .find _ what => what.Ready tls

section Sections

variable {cfg : Config} {t : State Tables} {b : Bindings}

theorem FoundKey.outcome {uid result : Nat} {what : FindKeyAnd} {t' : State Tables}
    (found : FoundKey cfg t b uid what result t') :
    ∃ b', StoreOk cfg t' b' ∧ what.Outcome b uid t.shared.tls result t'.shared.tls b' := by
  unfold FoundKey at found
  cases located : b.locate uid t.shared.tls.hash t.shared.tls.hashKey with
  | none =>
    rw [located] at found
    rcases found with ⟨none_, ok, _, tls⟩
    refine ⟨b, ok, ?_⟩
    unfold FindKeyAnd.Outcome
    rw [located]
    exact ⟨none_, rfl, tls⟩
  | some place =>
    rw [located] at found
    rcases found with ⟨binding, keyAddr, valAddr, bound, result_eq, acted⟩
    refine ⟨_, acted.ok, ?_⟩
    unfold FindKeyAnd.Outcome
    rw [located]
    refine ⟨binding, keyAddr, valAddr, bound, ?_, ?_⟩
    · rw [Function.update_self, result_eq, acted.tls]
    · rw [Function.update_self]

theorem work_ends (linkable : cfg.Linkable) (ok : StoreOk cfg t b) {work : Work} (ready : work.Ready cfg t.shared.tls) :
    Ends sizeLimit (work.run direct cfg)
      (fun result t' => ∃ b', StoreOk cfg t' b' ∧ work.Outcome b t.shared.tls result t'.shared.tls b')
      (fun e t' => e = .tabOverflow ∨ Refused cfg t'.shared.vfs e) t := by
  cases work with
  | put val =>
    refine ends_step (putSection_ends linkable ok ready) ?_ ?_
    · rintro e _ (⟨overflow, _⟩ | refused)
      · exact .inl overflow
      · exact .inr refused
    · rintro done t' (⟨rfl, ref, placed⟩ | ⟨rfl, split⟩)
      · exact ends_pure ⟨_, placed.ok, .inr ⟨ref, rfl, placed.free _ rfl, rfl, placed.tls⟩⟩
      · exact ends_pure ⟨b, split.ok, .inl ⟨rfl, rfl, split.tls⟩⟩
  | find uid what =>
    refine ends_step (findKeyInternal_ends linkable ok ready) (fun _ _ refused => .inr refused) ?_
    intro result t' found
    rcases found.outcome with ⟨b', ok', outcome⟩
    exact ends_pure ⟨b', ok', result, rfl, outcome⟩

theorem section_ends (linkable : cfg.Linkable) (ok : StoreOk cfg t b) {part : Section}
    (ready : part.work.Ready cfg part.tls) :
    Ends sizeLimit (runSections direct cfg (fun _ T => T) [part])
      (fun results t' => ∃ result tls b', results = [(result, tls)] ∧ StoreOk cfg t' b' ∧
        part.work.Outcome b part.tls result tls b') (fun e t' => e = .tabOverflow ∨ Refused cfg t'.shared.vfs e) t := by
  have switched : onMap (modify fun T : Tables => T) t = ⟨.ok (), t, 0⟩ := onMap_run (modify_run _ _)
  rcases modifyTls_step t fun _ => part.tls with ⟨t1, run1, map1, tls1, frame1⟩
  have work := @work_ends cfg t1 b linkable (ok.untouched map1 frame1) part.work
  rw [tls1] at work
  refine ends_after switched (ends_after run1 (ends_step (work ready) (fun _ _ stops => stops) ?_))
  rintro result t2 ⟨b', ok2, outcome⟩
  exact ends_after (getTls_run t2) (ends_pure ⟨result, _, b', rfl, ok2, outcome⟩)

/-- A critical section of a process does its work. -/
theorem InUse.section_ends {s : State Disk} (inUse : InUse cfg s b) (linkable : cfg.Linkable) {part : Section}
    (ready : part.work.Ready cfg part.tls) : Ends sizeLimit (runProcesses mapped cfg [part])
      (fun results s' => ∃ result tls b', results = [(result, tls)] ∧ InUse cfg s' b' ∧
        part.work.Outcome b part.tls result tls b') (fun e s' => e = .tabOverflow ∨ Refused cfg s'.shared.vfs e) s := by
  rcases inUse with ⟨t, settled, ok⟩
  have ends := ends_mapped (fun vfs e => e = .tabOverflow ∨ Refused cfg vfs e) settled
    (runSections_follows mapped_lowest Disk.switch [part]) (runSections_simulates guarded_faithful settled)
    (Store.section_ends linkable ok ready) (fun _ stops => ne_below_of_stops stops rfl) (fun _ => runSections_answers _ _)
    fun _ => runSections_answers _ _
  refine ends.mono ?_ fun _ _ stops => stops
  rintro results s' ⟨t', settled', result, tls, b', results_eq, ok', outcome⟩
  exact ⟨result, tls, b', results_eq, ⟨t', settled', ok'⟩, outcome⟩

theorem InUse.section_outcome {s : State Disk} {result : Option Nat} {tls : Tls} (inUse : InUse cfg s b)
    (linkable : cfg.Linkable) {part : Section} (within : (runProcesses mapped cfg [part] s).peak < 2^32)
    (value : (runProcesses mapped cfg [part] s).value = .ok [(result, tls)]) (ready : part.work.Ready cfg part.tls) :
    ∃ b', InUse cfg (runProcesses mapped cfg [part] s).state b' ∧ part.work.Outcome b part.tls result tls b' := by
  have done := inUse.section_ends linkable ready within
  rw [value] at done
  rcases done with ⟨_, _, b', same, inUse', outcome⟩
  cases same
  exact ⟨b', inUse', outcome⟩

end Sections

end SharedHashFile.Store
