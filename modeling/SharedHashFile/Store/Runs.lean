import SharedHashFile.Store.CallSpec
import SharedHashFile.Store.Reachable

namespace SharedHashFile.Store

open Program

section Simulation

variable {m : Mapping Disk} {cfg : Config} {s : State Disk} {t : State Tables} (faithful : Faithful m)
include faithful

theorem putLoop_simulates {val : PutVal} {fuel : Nat} (settled : Settled s t) :
    Simulates sizeLimit (putLoop m cfg val fuel) (putLoop direct cfg val fuel) (fun _ => Settled) s t := by
  induction fuel generalizing s t with
  | zero => exact simulates_stop
  | succ fuel ih =>
    refine simulates_bind (putSection_simulates faithful settled) fun done s t settled => ?_
    exact simulates_ite (fun _ => simulates_pure settled) fun _ => ih settled

theorem Op.run_simulates {op : Op} (settled : Settled s t) :
    Simulates sizeLimit (op.run m cfg) (op.run direct cfg) (fun _ => Settled) s t := by
  cases op with
  | getVal => exact findKeyInternal_simulates faithful settled
  | getKey => exact findKeyInternal_simulates faithful settled
  | delete => exact findKeyInternal_simulates faithful settled
  | update val =>
    exact simulates_bind settled.modifyTls fun _ s t settled => findKeyInternal_simulates faithful settled
  | add amount =>
    exact simulates_bind settled.modifyTls fun _ s t settled => findKeyInternal_simulates faithful settled

theorem Call.run_simulates {call : Call} {hashOf : List UInt8 → Hash} (settled : Settled s t) :
    Simulates sizeLimit (call.run m cfg hashOf) (call.run direct cfg hashOf) (fun _ => Settled) s t := by
  cases call with
  | put key val => exact simulates_bind settled.modifyTls fun _ s t settled => putLoop_simulates faithful settled
  | find key op => exact simulates_bind settled.modifyTls fun _ s t settled => Op.run_simulates faithful settled
  | uidVal uid => exact findKeyInternal_simulates faithful settled
  | uidKey uid => exact findKeyInternal_simulates faithful settled

theorem runCalls_simulates {calls : List Call} {hashOf : List UInt8 → Hash} (settled : Settled s t) :
    Simulates sizeLimit (runCalls m cfg hashOf calls) (runCalls direct cfg hashOf calls) (fun _ => Settled) s t := by
  induction calls generalizing s t with
  | nil => exact simulates_pure settled
  | cons call rest ih =>
    refine simulates_bind (Call.run_simulates faithful settled) fun code s t settled => ?_
    refine simulates_bind settled.getTls fun tls s t settled => ?_
    refine simulates_bind (ih settled) fun answers s t settled => ?_
    exact simulates_pure settled

end Simulation

section Runs

variable {cfg : Config} {hashOf : List UInt8 → Hash} {calls : List Call}

theorem initial_serves (cfg : Config) (hashOf : List UInt8 → Hash) (vfs : Nat → Nat) :
    Serves cfg hashOf (State.initialTables vfs Tls.initial) fun _ => none :=
  ⟨initial_storeOk cfg vfs Tls.initial, nofun, rfl, rfl⟩

/-- Every run answers as explained, on the tables themselves. -/
theorem runCalls_ends {t : State Tables} {b : Bindings} (linkable : cfg.Linkable) (serves : Serves cfg hashOf t b)
    (accepted : ∀ call ∈ calls, call.Accepted cfg) : Ends sizeLimit (runCalls direct cfg hashOf calls)
      (fun answers t' => ∃ b', Serves cfg hashOf t' b' ∧ Explains b.items calls answers b'.items)
      (fun e t' => e = .tabOverflow ∨ Refused cfg t'.shared.vfs e) t := by
  induction calls generalizing t b with
  | nil => exact ends_pure ⟨b, serves, rfl⟩
  | cons call rest ih =>
    have first := call_ends linkable serves call (accepted call List.mem_cons_self)
    refine ends_step first (fun _ _ refused => refused) ?_
    rintro code t1 ⟨b1, serves1, explained⟩
    refine ends_after (getTls_run t1) ?_
    have others := ih serves1 fun other member => accepted other (List.mem_cons_of_mem _ member)
    refine ends_step others (fun _ _ refused => refused) ?_
    rintro answers t2 ⟨b2, serves2, explains⟩
    exact ends_pure ⟨b2, serves2, _, explained, explains⟩

/-- A store as its client has it: the tables behind its mappings hold `b`. -/
def Client (cfg : Config) (hashOf : List UInt8 → Hash) (s : State Disk) (b : Bindings) : Prop :=
  ∃ t, Settled s t ∧ Serves cfg hashOf t b

theorem initial_client (cfg : Config) (hashOf : List UInt8 → Hash) (vfs : Nat → Nat) :
    Client cfg hashOf (State.initial vfs Tls.initial) fun _ => none :=
  ⟨_, initial_settled vfs Tls.initial, initial_serves cfg hashOf vfs⟩

theorem Client.run_ends {s : State Disk} {b : Bindings} (client : Client cfg hashOf s b) (linkable : cfg.Linkable)
    (accepted : ∀ call ∈ calls, call.Accepted cfg) : Ends sizeLimit (runCalls mapped cfg hashOf calls)
      (fun answers s' => ∃ b', Client cfg hashOf s' b' ∧ Explains b.items calls answers b'.items)
      (fun e _ => e = .tabOverflow ∨ Refused cfg s.shared.vfs e) s := by
  rcases client with ⟨t, settled, serves⟩
  have ends := ends_mapped (fun vfs e => e = .tabOverflow ∨ Refused cfg vfs e) settled
    (runCalls_follows mapped_lowest hashOf calls) (runCalls_simulates guarded_faithful settled)
    (runCalls_ends linkable serves accepted) (fun _ stops => ne_below_of_stops stops rfl)
    (fun _ => runCalls_answers _ _) fun _ => runCalls_answers _ _
  refine (ends.keeping (runCalls_answers hashOf calls) rfl).mono ?_ ?_
  · rintro answers s' ⟨⟨t', settled', b', serves', explains⟩, _⟩
    exact ⟨b', ⟨t', settled', serves'⟩, explains⟩
  · rintro e _ ⟨stops, same⟩
    rw [same] at stops
    exact stops

theorem client_ends (cfg : Config) (linkable : cfg.Linkable) (hashOf : List UInt8 → Hash) (vfs : Nat → Nat)
    (accepted : ∀ call ∈ calls, call.Accepted cfg) : Ends sizeLimit (runCalls mapped cfg hashOf calls)
      (fun answers _ => ∃ items, Explains (fun _ => none) calls answers items)
      (fun e _ => e = .tabOverflow ∨ Refused cfg vfs e) (State.initial vfs Tls.initial) := by
  refine ((initial_client cfg hashOf vfs).run_ends linkable accepted).mono ?_ fun _ _ refused => refused
  rintro answers _ ⟨b, _, explains⟩
  exact ⟨b.items, explains⟩

end Runs

end SharedHashFile.Store
