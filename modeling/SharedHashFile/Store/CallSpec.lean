import SharedHashFile.Store.ActSpec
import SharedHashFile.Store.FiniteMap

namespace SharedHashFile.Store

open ByteMemory Program

def Bindings.items (b : Bindings) : Items := fun slot => (b slot).map fun binding => ⟨binding.key, binding.val⟩

/-- A store which a client with the hashes `hashOf` uses; no time to live is set, and no update runs. -/
structure Serves (cfg : Config) (hashOf : List UInt8 → Hash) (t : State Tables) (b : Bindings) : Prop where
  ok : StoreOk cfg t b
  hashed : ∀ {slot binding}, b slot = some binding →
    slot = (hashOf binding.key).slot slot.ref ∧ binding.rnd = (hashOf binding.key).rnd
  ttl : t.shared.tls.ttl = 0
  idle : t.shared.tls.updCallbackFailsafe = 0

section Items

variable {b : Bindings} {slot : Slot} {key val : List UInt8} {hashOf : List UInt8 → Hash}

theorem Bindings.items_some : b.items slot = some ⟨key, val⟩ ↔ ∃ rnd, b slot = some ⟨rnd, key, val⟩ := by
  unfold items
  rw [Option.map_eq_some_iff]
  constructor
  · rintro ⟨binding, bound, same⟩
    cases same
    exact ⟨binding.rnd, bound⟩
  · rintro ⟨rnd, bound⟩
    exact ⟨_, bound, rfl⟩

theorem Bindings.items_none : b.items slot = none ↔ b slot = none := Option.map_eq_none_iff

theorem Bindings.items_update (binding : Option Binding) : Bindings.items (Function.update b slot binding) =
    Function.update b.items slot (binding.map fun bound => ⟨bound.key, bound.val⟩) := by
  funext other
  unfold items
  rw [Function.update_apply, Function.update_apply]
  split <;> rfl

theorem Bindings.locate_some {place : Slot} {hash : Hash} (found : b.locate uidNone hash key = some place) :
    ∃ binding, b place = some binding ∧ binding.key = key := by
  rw [locate, if_pos rfl] at found
  rcases Option.map_eq_some_iff.mp found with ⟨ref, search, rfl⟩
  have holds := List.find?_some search
  unfold isAt at holds
  split at holds
  · rename_i binding bound
    exact ⟨binding, bound, (of_decide_eq_true holds).2⟩
  · cases holds

theorem Bindings.locate_in_triple {place : Slot} {hash : Hash} (located : b.locate uidNone hash key = some place) :
    ∃ ref binding, place = hash.slot ref ∧ b place = some binding ∧ binding.key = key := by
  rcases Bindings.locate_some located with ⟨binding, bound, same⟩
  rw [Bindings.locate, if_pos rfl] at located
  rcases Option.map_eq_some_iff.mp located with ⟨ref, _, rfl⟩
  exact ⟨ref, binding, rfl, bound, same⟩

theorem Bindings.locate_none (hashed : ∀ {slot binding}, b slot = some binding →
      slot = (hashOf binding.key).slot slot.ref ∧ binding.rnd = (hashOf binding.key).rnd)
    (missing : b.locate uidNone (hashOf key) key = none) : b.items.Absent key := by
  intro slot val there
  rcases items_some.mp there with ⟨rnd, bound⟩
  rcases hashed bound with ⟨place, rnd_eq⟩
  rw [locate, if_pos rfl] at missing
  have search := List.find?_eq_none.mp (Option.map_eq_none_iff.mp missing) slot.ref (List.mem_finRange _)
  apply search
  rw [place] at bound
  unfold isAt
  rw [bound]
  exact decide_eq_true ⟨rnd_eq, rfl⟩

end Items

def Op.what : Op → FindKeyAnd
  | .getVal => .copyVal
  | .getKey => .copyKey
  | .update _ => .update
  | .add _ => .atomAdd
  | .delete => .delete

/-- What a client sets before it asks. -/
def Op.Preset (tls : Tls) : Op → Prop
  | .update val => tls.updCallbackCopyVal = val
  | .add amount => tls.valLong = amount
  | _ => True

theorem Op.Preset.lookedUp {tls : Tls} {op : Op} (preset : op.Preset tls) (uid : Nat) (place : Option Slot)
    (keyAddr valAddr : Option Nat) : op.Preset (tls.lookedUp uid place keyAddr valAddr) := by
  cases op <;> exact preset

section Effects

variable {tls : Tls} {binding : Binding}

theorem Call.observe_coded {code : Nat} {key : List UInt8} {op : Op} (other : code ≠ retKeyFound) :
    (Call.find key op).observe code tls = .coded code := if_neg other

theorem Op.effect_answer (op : Op) (preset : op.Preset tls) : (Call.find binding.key op).observe
    (op.what.effect tls binding).1 (op.what.effect tls binding).2.1 = (op.onVal binding.key binding.val).1 := by
  cases op with
  | getVal => rfl
  | getKey => rfl
  | delete => rfl
  | update val =>
    simp only [what, FindKeyAnd.effect, onVal, Call.observe, show tls.updCallbackCopyVal = val from preset]
    split
    · rfl
    · exact if_neg (show retKeyFound ||| retBadCb ≠ retKeyFound by decide)
  | add amount =>
    simp only [what, FindKeyAnd.effect, onVal, Call.observe, show tls.valLong = amount from preset]
    split
    · rfl
    · exact if_neg (show retKeyFound ||| retBadVal ≠ retKeyFound by decide)

theorem Op.effect_item (op : Op) (preset : op.Preset tls) :
    ((op.what.effect tls binding).2.2.map fun bound => (⟨bound.key, bound.val⟩ : Item)) =
      (op.onVal binding.key binding.val).2.map (Item.mk binding.key) := by
  cases op with
  | getVal => rfl
  | getKey => rfl
  | delete => rfl
  | update val =>
    simp only [what, FindKeyAnd.effect, onVal, show tls.updCallbackCopyVal = val from preset]
    split <;> rfl
  | add amount =>
    simp only [what, FindKeyAnd.effect, onVal, show tls.valLong = amount from preset]
    split <;> rfl

theorem FindKeyAnd.effect_binding {what : FindKeyAnd} {binding' : Binding}
    (after : (what.effect tls binding).2.2 = some binding') : binding'.key = binding.key ∧ binding'.rnd = binding.rnd := by
  cases what <;> simp only [effect] at after
  case delete => cases after
  case atomAdd =>
    split at after <;> cases after <;> exact ⟨rfl, rfl⟩
  case update =>
    split at after <;> cases after <;> exact ⟨rfl, rfl⟩
  all_goals cases after; exact ⟨rfl, rfl⟩

theorem FindKeyAnd.effect_tls (what : FindKeyAnd) (ttl : tls.ttl = 0) :
    (what.effect tls binding).2.1.ttl = 0 ∧
      (what.effect tls binding).2.1.updCallbackFailsafe = tls.updCallbackFailsafe := by
  cases what with
  | delete => exact ⟨rfl, rfl⟩
  | atomAdd =>
    simp only [effect]
    split <;> exact ⟨ttl, rfl⟩
  | update =>
    simp only [effect]
    split <;> exact ⟨ttl, rfl⟩
  | addr => exact ⟨ttl, rfl⟩
  | copyKey => exact ⟨ttl, rfl⟩
  | copyVal => exact ⟨ttl, rfl⟩

end Effects

section Calls

variable {cfg : Config} {hashOf : List UInt8 → Hash} {t : State Tables} {b : Bindings} {key : List UInt8}

theorem hashed_update {slot : Slot} {binding' : Option Binding}
    (hashed : ∀ {slot binding}, b slot = some binding →
      slot = (hashOf binding.key).slot slot.ref ∧ binding.rnd = (hashOf binding.key).rnd)
    (here : ∀ binding, binding' = some binding →
      slot = (hashOf binding.key).slot slot.ref ∧ binding.rnd = (hashOf binding.key).rnd) :
    ∀ {other binding}, Function.update b slot binding' other = some binding →
      other = (hashOf binding.key).slot other.ref ∧ binding.rnd = (hashOf binding.key).rnd := by
  intro other binding bound
  rw [Function.update_apply] at bound
  split at bound
  · rename_i same
    rw [same]
    exact here binding bound
  · exact hashed bound

theorem find_ends (linkable : cfg.Linkable) (serves : Serves cfg hashOf t b) (hash_eq : t.shared.tls.hash = hashOf key)
    (key_eq : t.shared.tls.hashKey = key) (op : Op) (preset : op.Preset t.shared.tls) :
    Ends sizeLimit (findKeyInternal direct cfg uidNone op.what)
      (fun code t' => ∃ b', Serves cfg hashOf t' b' ∧
        (Call.find key op).Explained b.items ((Call.find key op).observe code t'.shared.tls) b'.items)
      (fun e t' => Refused cfg t'.shared.vfs e) t := by
  have ready : op.what.Ready t.shared.tls := by
    cases op with
    | delete => exact serves.ttl
    | update val => exact serves.idle
    | getVal => trivial
    | getKey => trivial
    | add amount => trivial
  refine (findKeyInternal_ends linkable serves.ok ready).mono ?_ fun _ _ refused => refused
  intro code t' found
  unfold FoundKey at found
  rw [hash_eq, key_eq] at found
  cases located : b.locate uidNone (hashOf key) key with
  | none =>
    rw [located] at found
    rcases found with ⟨rfl, ok', frame, keyAddr, tls'⟩
    refine ⟨b, ⟨ok', serves.hashed, ?_, ?_⟩, .inl ⟨Bindings.locate_none serves.hashed located, ?_, rfl⟩⟩
    · rw [tls', Tls.lookedUp_ttl]
      exact serves.ttl
    · rw [tls', Tls.lookedUp_failsafe]
      exact serves.idle
    · exact Call.observe_coded (by decide)
  | some place =>
    rw [located] at found
    rcases found with ⟨binding, keyAddr, valAddr, bound, rfl, acted⟩
    rcases Bindings.locate_some located with ⟨binding', bound', rfl⟩
    rw [bound] at bound'
    cases bound'
    have preset' := preset.lookedUp uidNone (some place) keyAddr valAddr
    have ttl : (t.shared.tls.lookedUp uidNone (some place) keyAddr valAddr).ttl = 0 := by
      rw [Tls.lookedUp_ttl]
      exact serves.ttl
    have after := @FindKeyAnd.effect_tls _ binding op.what ttl
    rw [Tls.lookedUp_failsafe] at after
    refine ⟨_, ⟨acted.ok, hashed_update serves.hashed fun bound' same => ?_, ?_, ?_⟩, .inr ⟨place, binding.val, ?_, ?_, ?_⟩⟩
    · rcases FindKeyAnd.effect_binding same with ⟨sameKey, sameRnd⟩
      rw [sameKey, sameRnd]
      exact serves.hashed bound
    · rw [acted.tls]
      exact after.1
    · rw [acted.tls]
      exact after.2.trans serves.idle
    · exact Bindings.items_some.mpr ⟨_, bound⟩
    · rw [acted.tls]
      exact op.effect_answer preset'
    · rw [Bindings.items_update, op.effect_item preset']

theorem putLoop_ends {val : PutVal} (linkable : cfg.Linkable) (fuel : Nat) (ok : StoreOk cfg t b)
    (accepts : cfg.Accepts t.shared.tls.hashKey val)
    (enough : 2048 < (t.shared.wins (t.shared.tls.hash.slot 0).win).tabsUsed + fuel) :
    Ends sizeLimit (putLoop direct cfg val fuel)
      (fun code t' => code = retKeyPut ∧ ∃ ref, b (t.shared.tls.hash.slot ref) = none ∧
        StoreOk cfg t' (Function.update b (t.shared.tls.hash.slot ref)
          (some ⟨t.shared.tls.hash.rnd, t.shared.tls.hashKey, val.bytes⟩)) ∧
        t'.shared.tls = { t.shared.tls with uid := (t.shared.tls.hash.slot ref).uid })
      (fun e t' => e = .tabOverflow ∨ Refused cfg t'.shared.vfs e) t := by
  induction fuel generalizing t with
  | zero =>
    have := ok.used_le (t.shared.tls.hash.slot 0).win
    omega
  | succ fuel ih =>
    refine ends_step (putSection_ends linkable ok accepts) ?_ ?_
    · rintro e _ (⟨overflow, _⟩ | refused)
      · exact .inl overflow
      · exact .inr refused
    · rintro done t' (⟨rfl, ref, placed⟩ | ⟨rfl, split⟩)
      · exact ends_pure ⟨rfl, ref, placed.free _ rfl, placed.ok, placed.tls⟩
      · have again := @ih t' split.ok
        rw [split.tls, split.used_eq] at again
        exact again accepts (by omega)

/-- What a client is promised for: what it puts fits, and it looks for no `SHF_UID_NONE`. -/
def Call.Accepted (cfg : Config) : Call → Prop
  | .put key val => cfg.Accepts key val
  | .find _ _ => True
  | .uidVal uid | .uidKey uid => uid ≠ uidNone

theorem makeHash_step (t : State Tables) (hash : Hash) (key : List UInt8) : ∃ t',
    makeHash hash key t = ⟨.ok (), t', 0⟩ ∧ t'.map = t.map ∧
      t'.shared.tls = { t.shared.tls with hash := hash, hashKey := key } ∧ Frame (fun _ => False) t t' :=
  modifyTls_step t _

theorem Serves.withTls {t' : State Tables} (serves : Serves cfg hashOf t b) (map : t'.map = t.map)
    (frame : Frame (fun _ => False) t t') (ttl : t'.shared.tls.ttl = t.shared.tls.ttl)
    (idle : t'.shared.tls.updCallbackFailsafe = t.shared.tls.updCallbackFailsafe) : Serves cfg hashOf t' b :=
  ⟨serves.ok.untouched map frame, serves.hashed, ttl.trans serves.ttl, idle.trans serves.idle⟩

theorem op_ends (linkable : cfg.Linkable) (serves : Serves cfg hashOf t b) (hash_eq : t.shared.tls.hash = hashOf key)
    (key_eq : t.shared.tls.hashKey = key) (op : Op) : Ends sizeLimit (op.run direct cfg)
      (fun code t' => ∃ b', Serves cfg hashOf t' b' ∧
        (Call.find key op).Explained b.items ((Call.find key op).observe code t'.shared.tls) b'.items)
      (fun e t' => Refused cfg t'.shared.vfs e) t := by
  cases op with
  | getVal => exact find_ends linkable serves hash_eq key_eq .getVal trivial
  | getKey => exact find_ends linkable serves hash_eq key_eq .getKey trivial
  | delete => exact find_ends linkable serves hash_eq key_eq .delete trivial
  | update val =>
    rcases modifyTls_step t fun tls => { tls with updCallbackCopyVal := val } with ⟨t1, run1, map1, tls1, frame1⟩
    refine ends_after run1 (find_ends linkable (serves.withTls map1 frame1 (by rw [tls1]) (by rw [tls1])) ?_ ?_
      (.update val) ?_)
    · rw [tls1]
      exact hash_eq
    · rw [tls1]
      exact key_eq
    · rw [tls1]
      rfl
  | add amount =>
    rcases modifyTls_step t fun tls => { tls with valLong := amount } with ⟨t1, run1, map1, tls1, frame1⟩
    refine ends_after run1 (find_ends linkable (serves.withTls map1 frame1 (by rw [tls1]) (by rw [tls1])) ?_ ?_
      (.add amount) ?_)
    · rw [tls1]
      exact hash_eq
    · rw [tls1]
      exact key_eq
    · rw [tls1]
      rfl

theorem uid_ends {uid : Nat} {what : FindKeyAnd} (linkable : cfg.Linkable) (serves : Serves cfg hashOf t b)
    (byUid : uid ≠ uidNone) (ready : what.Ready t.shared.tls)
    (same : ∀ tls binding, (what.effect tls binding).2.2 = some binding) :
    Ends sizeLimit (findKeyInternal direct cfg uid what)
      (fun code t' => Serves cfg hashOf t' b ∧ match b (uidSlot uid) with
        | none => code = retKeyNone
        | some binding => ∃ tls, code = (what.effect tls binding).1 ∧ t'.shared.tls = (what.effect tls binding).2.1)
      (fun e t' => Refused cfg t'.shared.vfs e) t := by
  refine (findKeyInternal_ends linkable serves.ok ready).mono ?_ fun _ _ refused => refused
  intro code t' found
  unfold FoundKey at found
  rw [Bindings.locate, if_neg byUid] at found
  cases bound : b (uidSlot uid) with
  | none =>
    rw [bound] at found
    rcases found with ⟨rfl, ok', frame, keyAddr, tls'⟩
    refine ⟨⟨ok', serves.hashed, ?_, ?_⟩, rfl⟩
    · rw [tls', Tls.lookedUp_ttl]
      exact serves.ttl
    · rw [tls', Tls.lookedUp_failsafe]
      exact serves.idle
  | some binding =>
    rw [bound] at found
    rcases found with ⟨binding', keyAddr, valAddr, bound', rfl, acted⟩
    rw [bound] at bound'
    cases bound'
    have ttl : (t.shared.tls.lookedUp uid (some (uidSlot uid)) keyAddr valAddr).ttl = 0 := by
      rw [Tls.lookedUp_ttl]
      exact serves.ttl
    have after := @FindKeyAnd.effect_tls _ binding what ttl
    rw [Tls.lookedUp_failsafe] at after
    refine ⟨⟨?_, serves.hashed, ?_, ?_⟩, _, rfl, acted.tls⟩
    · have ok' := acted.ok
      rw [same, ← bound, Function.update_eq_self] at ok'
      exact ok'
    · rw [acted.tls]
      exact after.1
    · rw [acted.tls]
      exact after.2.trans serves.idle

/-- Every call answers and acts as explained. -/
theorem call_ends (linkable : cfg.Linkable) (serves : Serves cfg hashOf t b) (call : Call)
    (accepted : call.Accepted cfg) : Ends sizeLimit (call.run direct cfg hashOf)
      (fun code t' => ∃ b', Serves cfg hashOf t' b' ∧ call.Explained b.items (call.observe code t'.shared.tls) b'.items)
      (fun e t' => e = .tabOverflow ∨ Refused cfg t'.shared.vfs e) t := by
  cases call with
  | put key val =>
    rcases makeHash_step t (hashOf key) key with ⟨t1, run1, map1, tls1, frame1⟩
    have serves1 := serves.withTls map1 frame1 (by rw [tls1]) (by rw [tls1])
    have put := @putLoop_ends cfg t1 b val linkable 2049 serves1.ok (by rw [tls1]; exact accepted) (by omega)
    rw [tls1] at put
    refine ends_after run1 (put.mono ?_ fun _ _ refused => refused)
    rintro code t2 ⟨rfl, ref, free, ok2, tls2⟩
    refine ⟨_, ⟨ok2, hashed_update serves.hashed fun binding same => ?_, ?_, ?_⟩, (hashOf key).slot ref,
      Bindings.items_none.mpr free, ?_, Bindings.items_update _⟩
    · cases same
      exact ⟨rfl, rfl⟩
    · rw [tls2]
      exact serves.ttl
    · rw [tls2]
      exact serves.idle
    · rw [tls2]
      rfl
  | find key op =>
    rcases makeHash_step t (hashOf key) key with ⟨t1, run1, map1, tls1, frame1⟩
    have serves1 := serves.withTls map1 frame1 (by rw [tls1]) (by rw [tls1])
    exact ends_after run1 ((op_ends linkable serves1 (by rw [tls1]) (by rw [tls1]) op).mono (fun _ _ post => post)
      fun _ _ refused => .inr refused)
  | uidVal uid =>
    refine (@uid_ends _ _ _ _ uid .copyVal linkable serves accepted trivial fun _ _ => rfl).mono ?_ fun _ _ refused => .inr refused
    rintro code t' ⟨serves', found⟩
    refine ⟨b, serves', rfl, ?_⟩
    cases bound : b (uidSlot uid) with
    | none =>
      rw [bound] at found
      rw [Bindings.items_none.mpr bound, found]
      rfl
    | some binding =>
      rw [bound] at found
      rcases found with ⟨tls, rfl, tls'⟩
      rw [Bindings.items_some.mpr ⟨_, bound⟩, tls']
      rfl
  | uidKey uid =>
    refine (@uid_ends _ _ _ _ uid .copyKey linkable serves accepted trivial fun _ _ => rfl).mono ?_ fun _ _ refused => .inr refused
    rintro code t' ⟨serves', found⟩
    refine ⟨b, serves', rfl, ?_⟩
    cases bound : b (uidSlot uid) with
    | none =>
      rw [bound] at found
      rw [Bindings.items_none.mpr bound, found]
      rfl
    | some binding =>
      rw [bound] at found
      rcases found with ⟨tls, rfl, tls'⟩
      rw [Bindings.items_some.mpr ⟨_, bound⟩, tls']
      rfl

end Calls

end SharedHashFile.Store
