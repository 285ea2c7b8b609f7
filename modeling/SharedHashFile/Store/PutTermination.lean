import SharedHashFile.Store.ClientLaws
import SharedHashFile.Store.FixedLengths
import SharedHashFile.Store.Splits

namespace SharedHashFile.Store

open Program

/-- The number of times `shf_tab_part` was called for the window of a key. -/
def State.parts {μ : Type} (s : State μ) (hash : Hash) : Nat := (s.shared.wins (hash.slot 0).win).tabsParted

def Call.Fits (cfg : Config) (hashOf : List UInt8 → Hash) (s : State Disk) : Call → Prop
  | .put key _ => ∃ ref, s.items cfg ((hashOf key).slot ref) = none
  | _ => True

/-- If the call is a put, it stores its key after 11 parts at most, or its record is refused. -/
def Call.Terminates (cfg : Config) (hashOf : List UInt8 → Hash) (s : State Disk) : Call → Prop
  | .put key val =>
    let run := (Call.put key val).run mapped cfg hashOf s
    (∀ code, run.value = .ok code → code = retKeyPut ∧ run.state.parts (hashOf key) ≤ s.parts (hashOf key) + 11) ∧
      ∀ e, run.value = .error e → Refused cfg s.shared.vfs e
  | _ => True

def BeforeEach (cfg : Config) (hashOf : List UInt8 → Hash) (P : State Disk → Call → Prop) :
    List Call → State Disk → Prop
  | [], _ => True
  | call :: rest, s => P s call ∧ ((call.run mapped cfg hashOf s).value.isOk = true →
      BeforeEach cfg hashOf P rest (call.run mapped cfg hashOf s).state)

section Puts

variable {cfg : Config} {hashOf : List UInt8 → Hash} {s : State Disk} {b : Bindings} {call : Call} {calls : List Call}

theorem Settled.shared {t : State Tables} (settled : Settled s t) : s.shared = t.shared := by
  rcases settled with ⟨L, tracks, _⟩
  exact tracks.shared

theorem Settled.balanced {t : State Tables} (settled : Settled s t) : s.Balanced ↔ t.Balanced := by
  unfold State.Balanced
  rw [settled.shared]

theorem findKeyInternal_frame {t : State Tables} {uid : Nat} {what : FindKeyAnd} (linkable : cfg.Linkable)
    (ok : StoreOk cfg t b) (ready : what.Ready t.shared.tls) :
    Ends sizeLimit (findKeyInternal direct cfg uid what) (fun _ t' => Frame (fun _ => True) t t') (fun _ _ => True) t := by
  refine (findKeyInternal_ends linkable ok ready).mono ?_ fun _ _ _ => trivial
  intro result t' found
  unfold FoundKey at found
  split at found
  · exact found.2.2.1
  · rcases found with ⟨_, _, _, _, _, acted⟩
    exact acted.frame

theorem Op.run_balanced {t : State Tables} (linkable : cfg.Linkable) (serves : Serves cfg hashOf t b)
    (balanced : t.Balanced) (op : Op) :
    Ends sizeLimit (op.run direct cfg) (fun _ t' => t'.Balanced) (fun _ _ => True) t := by
  have plain {what : FindKeyAnd} (ready : what.Ready t.shared.tls) : Ends sizeLimit
      (findKeyInternal direct cfg uidNone what) (fun _ t' => t'.Balanced) (fun _ _ => True) t :=
    (findKeyInternal_frame linkable serves.ok ready).mono (fun _ _ frame => frame.balanced balanced) fun _ _ _ => trivial
  cases op with
  | getVal => exact @plain .copyVal trivial
  | getKey => exact @plain .copyKey trivial
  | delete => exact @plain .delete serves.ttl
  | update val =>
    rcases modifyTls_step t fun tls => { tls with updCallbackCopyVal := val } with ⟨t1, run1, map1, tls1, frame1⟩
    refine ends_after run1 ((findKeyInternal_frame linkable (serves.ok.untouched map1 frame1) ?_).mono ?_ fun _ _ _ => trivial)
    · rw [tls1]
      exact serves.idle
    · intro _ t2 frame2
      exact frame2.balanced (frame1.balanced balanced)
  | add amount =>
    rcases modifyTls_step t fun tls => { tls with valLong := amount } with ⟨t1, run1, map1, tls1, frame1⟩
    refine ends_after run1 ((@findKeyInternal_frame cfg b t1 uidNone .atomAdd linkable (serves.ok.untouched map1 frame1) trivial).mono
      ?_ fun _ _ _ => trivial)
    intro _ t2 frame2
    exact frame2.balanced (frame1.balanced balanced)

/-- A call keeps the balance; a put parts at most 11 tables for it. -/
theorem call_balanced {t : State Tables} (linkable : cfg.Linkable) (serves : Serves cfg hashOf t b)
    (balanced : t.Balanced) (accepted : call.Accepted cfg)
    (fits : ∀ key val, call = .put key val → ∃ ref, b ((hashOf key).slot ref) = none) :
    Ends sizeLimit (call.run direct cfg hashOf) (fun _ t' => t'.Balanced ∧ ∀ key val, call = .put key val →
      t'.parts (hashOf key) ≤ t.parts (hashOf key) + 11) (fun e t' => ∀ key val, call = .put key val →
      Refused cfg t'.shared.vfs e) t := by
  cases call with
  | put key val =>
    rcases makeHash_step t (hashOf key) key with ⟨t1, run1, map1, tls1, frame1⟩
    rcases fits key val rfl with ⟨ref, free⟩
    have put := @putKeyVal_halves cfg t1 b val ref linkable (serves.ok.untouched map1 frame1)
    rw [tls1] at put
    refine ends_after run1 ((put accepted (frame1.balanced balanced) free).mono ?_ fun _ _ refused _ _ _ => refused)
    rintro _ t2 ⟨balanced2, parted⟩
    refine ⟨balanced2, fun key' val' same => ?_⟩
    cases same
    rw [frame1.parted] at parted
    exact parted
  | find key op =>
    rcases makeHash_step t (hashOf key) key with ⟨t1, run1, map1, tls1, frame1⟩
    have serves1 := serves.withTls map1 frame1 (by rw [tls1]) (by rw [tls1])
    refine ends_after run1 ((Op.run_balanced linkable serves1 (frame1.balanced balanced) op).mono
      (fun _ _ after => ⟨after, nofun⟩) fun _ _ _ => nofun)
  | uidVal uid =>
    exact (@findKeyInternal_frame cfg b t uid .copyVal linkable serves.ok trivial).mono
      (fun _ _ frame => ⟨frame.balanced balanced, nofun⟩) fun _ _ _ => nofun
  | uidKey uid =>
    exact (@findKeyInternal_frame cfg b t uid .copyKey linkable serves.ok trivial).mono
      (fun _ _ frame => ⟨frame.balanced balanced, nofun⟩) fun _ _ _ => nofun

theorem Client.call_ends (linkable : cfg.Linkable) (client : Client cfg hashOf s b) (balanced : s.Balanced)
    (accepted : call.Accepted cfg) (fits : call.Fits cfg hashOf s) : Ends sizeLimit (call.run mapped cfg hashOf)
      (fun code s' => (∃ b', Client cfg hashOf s' b') ∧ s'.Balanced ∧ ∀ key val, call = .put key val →
        code = retKeyPut ∧ s'.parts (hashOf key) ≤ s.parts (hashOf key) + 11)
      (fun e _ => ∀ key val, call = .put key val → Refused cfg s.shared.vfs e) s := by
  have items := client.inUse.items
  rcases client with ⟨t, settled, serves⟩
  have free : ∀ key val, call = .put key val → ∃ ref, b ((hashOf key).slot ref) = none := by
    rintro key val rfl
    rcases fits with ⟨ref, none_⟩
    rw [items] at none_
    exact ⟨ref, Bindings.items_none.mp none_⟩
  have direct_ := (Store.call_ends linkable serves call accepted).and
    (call_balanced linkable serves (settled.balanced.mp balanced) accepted free)
  have ends := ends_mapped (fun vfs e => (e = .tabOverflow ∨ Refused cfg vfs e) ∧ ∀ key val, call = .put key val → Refused cfg vfs e)
    settled (Call.run_follows mapped_lowest hashOf call) (Call.run_simulates guarded_faithful settled) direct_
    (fun _ stops => ne_below_of_stops stops.1 rfl) (fun _ => call.run_answers hashOf) fun _ => call.run_answers hashOf
  refine (ends.keeping (call.run_answers hashOf) rfl).mono ?_ ?_
  · rintro code s' ⟨⟨t', settled', ⟨b', serves', explained⟩, balanced', parted⟩, _⟩
    refine ⟨⟨b', t', settled', serves'⟩, settled'.balanced.mpr balanced', ?_⟩
    rintro key val rfl
    rcases explained with ⟨slot, _, answered, _⟩
    refine ⟨congrArg Answer.code answered, ?_⟩
    have same := parted key val rfl
    unfold State.parts at same ⊢
    rw [settled.shared, settled'.shared]
    exact same
  · rintro e _ ⟨⟨_, refused⟩, same⟩
    rw [same] at refused
    exact refused

theorem Client.each_terminates (linkable : cfg.Linkable) (client : Client cfg hashOf s b) (balanced : s.Balanced)
    (accepted : ∀ call ∈ calls, call.Accepted cfg) (fits : BeforeEach cfg hashOf (Call.Fits cfg hashOf) calls s)
    (within : (runCalls mapped cfg hashOf calls s).peak < sizeLimit) :
    BeforeEach cfg hashOf (Call.Terminates cfg hashOf) calls s := by
  induction calls generalizing s b with
  | nil => trivial
  | cons call rest ih =>
    have first : ((call.run mapped cfg hashOf) s).peak < sizeLimit := lt_of_le_of_lt (peak_first_le _ _ _) within
    have ends := client.call_ends linkable balanced (accepted call List.mem_cons_self) fits.1 first
    constructor
    · cases call with
      | put key val =>
        constructor
        · intro code ended
          rw [ended] at ends
          exact ends.2.2 key val rfl
        · intro e stopped
          rw [stopped] at ends
          exact ends key val rfl
      | find key op => trivial
      | uidVal uid => trivial
      | uidKey uid => trivial
    · intro ended
      cases value : (call.run mapped cfg hashOf s).value with
      | error e =>
        rw [value] at ended
        cases ended
      | ok code =>
        rw [value] at ends
        rcases ends with ⟨⟨b', client'⟩, balanced', _⟩
        apply ih client' balanced' (fun other member => accepted other (List.mem_cons_of_mem _ member)) (fits.2 ended)
        have next := lt_of_le_of_lt (peak_next_le value) within
        rw [bind_ok (getTls_run _)] at next
        exact lt_of_le_of_lt (peak_first_le _ _ _) next

theorem BeforeEach.last {P : State Disk → Call → Prop} {final : Call}
    (each : BeforeEach cfg hashOf P (calls ++ [final]) s) (ended : (runCalls mapped cfg hashOf calls s).value.isOk = true) :
    P (runCalls mapped cfg hashOf calls s).state final := by
  induction calls generalizing s with
  | nil => exact each.1
  | cons call rest ih =>
    rcases first_ended ended with ⟨code, first⟩
    rcases bind_ended first with ⟨value, state⟩
    rw [runCalls, value, bind_ok (getTls_run _)] at ended
    rcases first_ended ended with ⟨answers, others⟩
    rcases bind_ended others with ⟨_, after⟩
    rw [runCalls, state, bind_ok (getTls_run _), after]
    apply ih
    · apply each.2
      rw [first]
      rfl
    · rw [others]
      rfl

/-- While `statvfs` answers enough, a put returns. -/
theorem Call.Terminates.returns {cfg : Config} {hashOf : List UInt8 → Hash} {s : State Disk} {key : List UInt8} {val : PutVal}
    (terminates : Call.Terminates cfg hashOf s (.put key val)) (grows : cfg.dataNeededFactor ≠ 0)
    (ample : ∀ n, 2^33 * cfg.dataNeededFactor ≤ s.shared.vfs n % 2^64) :
    ((Call.put key val).run mapped cfg hashOf s).value = .ok retKeyPut := by
  cases value : ((Call.put key val).run mapped cfg hashOf s).value with
  | ok code => rw [(terminates.1 code value).1]
  | error e => exact absurd (terminates.2 e value) (not_refused ample grows)

theorem initial_balanced (vfs : Nat → Nat) (tls : Tls) : (State.initial vfs tls).Balanced := fun _ => Balanced.initial

/-- Every put of a client ends, where deleted records are kept apart. -/
theorem puts_terminate (cfg : Config) (linkable : cfg.isFixedKeyValLen = true →
      cfg.fixedKeyLen + cfg.fixedValLen < 4 ∨ 8 ≤ cfg.fixedKeyLen + cfg.fixedValLen) (hashOf : List UInt8 → Hash)
    (vfs : Nat → Nat) (calls : List Call) (accepted : ∀ call ∈ calls, call.Accepted cfg)
    (fits : BeforeEach cfg hashOf (Call.Fits cfg hashOf) calls (State.initial vfs Tls.initial))
    (within : (runCalls mapped cfg hashOf calls (State.initial vfs Tls.initial)).peak < 2^32) :
    BeforeEach cfg hashOf (Call.Terminates cfg hashOf) calls (State.initial vfs Tls.initial) := by
  apply (initial_client cfg hashOf vfs).each_terminates _ (initial_balanced vfs Tls.initial) accepted fits within
  intro fixed
  apply linkable
  unfold Config.lenLen at fixed
  split at fixed
  · assumption
  · cases fixed

instance (s : State Disk) : DecidablePred (Call.Fits cfg hashOf s) := by
  intro call
  cases call <;> unfold Call.Fits <;> infer_instance

instance decidableBeforeEach (P : State Disk → Call → Prop) [∀ s, DecidablePred (P s)] :
    ∀ (calls : List Call) (s : State Disk), Decidable (BeforeEach cfg hashOf P calls s)
  | [], _ => isTrue trivial
  | call :: rest, s =>
    have := decidableBeforeEach P rest (call.run mapped cfg hashOf s).state
    inferInstanceAs (Decidable (_ ∧ (_ → _)))

theorem smallPuts_terminate : BeforeEach smallConfig (fun _ => 0) (Call.Terminates smallConfig fun _ => 0)
    [.put [1] (.copy [10]), .put [2] (.copy [20]), .find [1] .getVal] (State.initial (fun _ => 2^40) Tls.initial) := by
  apply puts_terminate smallConfig nofun
  · intro call member
    cases call with
    | put key val => exact Config.accepts_variable rfl key val
    | find key op => trivial
    | uidVal uid => simp at member
    | uidKey uid => simp at member
  · decide +kernel
  · decide +kernel

/-- The last of these puts comes upon a wrong link. -/
def overlapPuts : List Call := ((overlapCalls 3 4).map KeyCall.call).take 10

theorem overlapPuts_not_terminate :
    BeforeEach (fixedConfig 3 4) (fun _ => 0) (Call.Fits (fixedConfig 3 4) fun _ => 0)
      (overlapPuts ++ [(fixedPut 3 4 8).call]) (State.initial (fun _ => 2^40) Tls.initial) ∧
    (runCalls mapped (fixedConfig 3 4) (fun _ => 0) (overlapPuts ++ [(fixedPut 3 4 8).call])
      (State.initial (fun _ => 2^40) Tls.initial)).peak < 2^32 ∧
    ¬ BeforeEach (fixedConfig 3 4) (fun _ => 0) (Call.Terminates (fixedConfig 3 4) fun _ => 0)
      (overlapPuts ++ [(fixedPut 3 4 8).call]) (State.initial (fun _ => 2^40) Tls.initial) := by
  refine ⟨by decide +kernel, by decide +kernel, fun terminates => ?_⟩
  have final := (terminates.last (by decide +kernel)).2 .wild (by decide +kernel)
  simp [Refused] at final

end Puts

end SharedHashFile.Store
