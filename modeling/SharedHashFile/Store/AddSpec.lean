import SharedHashFile.Store.Counters
import SharedHashFile.Store.PutTermination

namespace SharedHashFile.Store

open ByteMemory Program

def State.takenBy (s : State Disk) (process : Nat) (tls : Tls) : State Disk :=
  ⟨{ s.shared with tls := tls }, s.map.switch process⟩

/-- What `shf_add_key_val` does to what is bound, with which result and `shf_val_long`. -/
def AddOutcome (b : Bindings) (hash : Hash) (key : List UInt8) (add : BitVec 64) (code long : Nat) (b' : Bindings) : Prop :=
  match b.locate uidNone hash key with
  | none => code = retKeyFound ∧ long = add.toNat ∧ ∃ ref, b (hash.slot ref) = none ∧
      b' = Function.update b (hash.slot ref) (some ⟨hash.rnd, key, leBytes 8 add.toNat⟩)
  | some place => ∃ binding, b place = some binding ∧
      if 8 ≤ binding.val.length then
        code = retKeyFound ∧ long = (leValue (binding.val.take 8) + add.toNat) % 2^64 ∧
          b' = Function.update b place
            (if long = 0 then none else some { binding with val := leBytes 8 long ++ binding.val.drop 8 })
      else code = (retKeyFound ||| retBadVal) ∧ b' = b

section Locating

variable {b : Bindings} {hash : Hash} {key : List UInt8} {ref : Fin 16} {place : Slot} {binding : Binding}

theorem isAt_iff : b.isAt hash key ref = true ↔
    ∃ binding, b (hash.slot ref) = some binding ∧ binding.rnd = hash.rnd ∧ binding.key = key := by
  unfold Bindings.isAt
  cases bound : b (hash.slot ref) with
  | none => exact ⟨nofun, fun ⟨_, there, _⟩ => nomatch there⟩
  | some binding =>
    refine ⟨fun holds => ⟨binding, rfl, of_decide_eq_true holds⟩, ?_⟩
    rintro ⟨_, same, holds⟩
    cases same
    exact decide_eq_true holds

theorem locate_none_iff : b.locate uidNone hash key = none ↔ ∀ ref, b.isAt hash key ref = false := by
  rw [Bindings.locate, if_pos rfl, Option.map_eq_none_iff, List.find?_eq_none]
  exact ⟨fun none_ ref => Bool.eq_false_iff.mpr (none_ ref (List.mem_finRange _)), fun none_ ref _ => Bool.eq_false_iff.mp (none_ ref)⟩

theorem find_only {Item : Type} {p : Item → Bool} {items : List Item} {item : Item} (member : item ∈ items)
    (only : ∀ other, p other = true ↔ other = item) : items.find? p = some item := by
  cases search : items.find? p with
  | none => exact absurd ((only item).mpr rfl) (List.find?_eq_none.mp search item member)
  | some other => rw [(only other).mp (List.find?_some search)]

theorem locate_of_only (here : b.isAt hash key ref = true) (only : ∀ other, b.isAt hash key other = true → other = ref) :
    b.locate uidNone hash key = some (hash.slot ref) := by
  rw [Bindings.locate, if_pos rfl, find_only (List.mem_finRange ref) fun other => ⟨only other, fun same => same ▸ here⟩]
  rfl

theorem locate_bound (none_ : b.locate uidNone hash key = none) (val : List UInt8) :
    Bindings.locate (Function.update b (hash.slot ref) (some ⟨hash.rnd, key, val⟩)) uidNone hash key = some (hash.slot ref) := by
  apply locate_of_only
  · exact isAt_iff.mpr ⟨_, Function.update_self _ _ _, rfl, rfl⟩
  · intro other there
    by_contra differ
    rcases isAt_iff.mp there with ⟨binding, bound, same⟩
    rw [update_slot, if_neg differ] at bound
    have not := locate_none_iff.mp none_ other
    rw [isAt_iff.mpr ⟨binding, bound, same⟩] at not
    cases not

theorem locate_revalued (located : b.locate uidNone hash key = some place) (bound : b place = some binding) (val : List UInt8) :
    Bindings.locate (Function.update b place (some { binding with val := val })) uidNone hash key = some place := by
  rcases Bindings.locate_in_triple located with ⟨ref, _, rfl, _⟩
  have same : Bindings.isAt (Function.update b (hash.slot ref) (some { binding with val := val })) hash key = b.isAt hash key := by
    funext other
    unfold Bindings.isAt
    rw [update_slot]
    by_cases here : other = ref
    · rw [if_pos here, here, bound]
    · rw [if_neg here]
  unfold Bindings.locate at located ⊢
  rwa [same]

end Locating

section Calls

variable {cfg : Config} {s : State Disk} {b : Bindings}

theorem InUse.setTls_step (inUse : InUse cfg s b) (f : Tls → Tls) : ∃ s', modifyTls f s = ⟨.ok (), s', 0⟩ ∧
    s'.shared.tls = f s.shared.tls ∧ InUse cfg s' b := by
  rcases inUse with ⟨t, settled, ok⟩
  rcases (settled.modifyTls (f := f)).run (modifyTls_run t f) (by decide) with ⟨s', run, settled'⟩
  refine ⟨s', run, ?_, _, settled', ok.withTls f⟩
  rw [settled'.shared, settled.shared]
  rfl

theorem InUse.switch (inUse : InUse cfg s b) (process : Nat) : InUse cfg { s with map := s.map.switch process } b := by
  rcases inUse with ⟨t, settled, ok⟩
  exact ⟨t, settled.switch, ok⟩

theorem InUse.takenBy (inUse : InUse cfg s b) (process : Nat) (tls : Tls) : InUse cfg (s.takenBy process tls) b := by
  rcases (inUse.switch process).setTls_step fun _ => tls with ⟨s', run, _, inUse'⟩
  cases run
  exact inUse'

theorem getTls_ends (s : State Disk) : getTls s = ⟨.ok s.shared.tls, s, 0⟩ := rfl

theorem InUse.find_ends (inUse : InUse cfg s b) (linkable : cfg.Linkable) (uid : Nat) (what : FindKeyAnd)
    (ready : what.Ready s.shared.tls) : Ends sizeLimit (findKeyInternal mapped cfg uid what)
      (fun code s' => ∃ b', InUse cfg s' b' ∧ what.Outcome b uid s.shared.tls code s'.shared.tls b')
      (fun e s' => Refused cfg s'.shared.vfs e) s := by
  rcases inUse with ⟨t, settled, ok⟩
  rw [settled.shared] at ready ⊢
  have found := @findKeyInternal_ends _ _ _ uid _ linkable ok ready
  have ends := ends_mapped (Refused cfg) settled (findKeyInternal_follows mapped_lowest uid what)
    (findKeyInternal_simulates guarded_faithful settled) found (fun _ refused => refused.ne_below rfl)
    (fun _ => findKeyInternal_answers uid what) fun _ => findKeyInternal_answers uid what
  refine ends.mono ?_ fun _ _ refused => refused
  rintro code s' ⟨t', settled', found⟩
  rcases found.outcome with ⟨b', ok', outcome⟩
  rw [settled'.shared]
  exact ⟨b', ⟨t', settled', ok'⟩, outcome⟩

theorem InUse.putKeyVal_ends (inUse : InUse cfg s b) (linkable : cfg.Linkable) {val : PutVal}
    (accepts : cfg.Accepts s.shared.tls.hashKey val) : Ends sizeLimit (putKeyVal mapped cfg val)
      (fun code s' => ∃ b', InUse cfg s' b' ∧ PutOutcome b val s.shared.tls (some code) s'.shared.tls b')
      (fun e s' => e = .tabOverflow ∨ Refused cfg s'.shared.vfs e) s := by
  rcases inUse with ⟨t, settled, ok⟩
  rw [settled.shared] at accepts ⊢
  have put := putLoop_ends linkable 2049 ok accepts (by omega)
  unfold putKeyVal
  have ends := ends_mapped (fun vfs e => e = .tabOverflow ∨ Refused cfg vfs e) settled
    (putLoop_follows mapped_lowest val 2049) (putLoop_simulates guarded_faithful settled) put
    (fun _ stops => ne_below_of_stops stops rfl) (fun _ => putLoop_answers val 2049) fun _ => putLoop_answers val 2049
  refine ends.mono ?_ fun _ _ stops => stops
  rintro code s' ⟨t', settled', rfl, ref, free, ok', tls⟩
  rw [settled'.shared]
  exact ⟨_, ⟨t', settled', ok'⟩, .inr ⟨ref, rfl, free, rfl, tls⟩⟩

end Calls

section Adding

variable {cfg : Config} {s : State Disk} {b b' : Bindings} {hash : Hash} {key : List UInt8} {add : BitVec 64}

theorem atomAdd_none {tls tls' : Tls} {code : Nat} (ready : tls.For hash key) (none_ : b.locate uidNone hash key = none)
    (outcome : FindKeyAnd.atomAdd.Outcome b uidNone tls code tls' b') : code = retKeyNone ∧ b' = b ∧ tls'.For hash key := by
  unfold FindKeyAnd.Outcome at outcome
  rw [ready.hashed, ready.keyed, none_] at outcome
  rcases outcome with ⟨rfl, rfl, keyAddr, rfl⟩
  exact ⟨rfl, rfl, ready.lookedUp _ _ _ _⟩

theorem atomAdd_some {tls tls' : Tls} {code : Nat} {place : Slot} (ready : tls.For hash key)
    (located : b.locate uidNone hash key = some place) (outcome : FindKeyAnd.atomAdd.Outcome b uidNone tls code tls' b') :
    tls'.For hash key ∧ ∃ binding, b place = some binding ∧ if 8 ≤ binding.val.length then code = retKeyFound ∧
      tls'.valLong = (leValue (binding.val.take 8) + tls.valLong) % 2^64 ∧
      b' = Function.update b place (some { binding with val := leBytes 8 tls'.valLong ++ binding.val.drop 8 })
    else code = (retKeyFound ||| retBadVal) ∧ b' = b := by
  unfold FindKeyAnd.Outcome at outcome
  rw [ready.hashed, ready.keyed, located] at outcome
  rcases outcome with ⟨binding, keyAddr, valAddr, bound, effect, b'_eq⟩
  have ready' := ready.lookedUp uidNone (some place) keyAddr valAddr
  have long := Tls.lookedUp_valLong tls uidNone (some place) keyAddr valAddr
  generalize tls.lookedUp uidNone (some place) keyAddr valAddr = tls1 at effect ready' long
  unfold FindKeyAnd.effect at effect
  by_cases large : 8 ≤ binding.val.length
  · simp only [if_pos large, Prod.mk.injEq] at effect
    rcases effect with ⟨rfl, rfl, stored⟩
    refine ⟨ready'.withLong _, binding, bound, ?_⟩
    rw [if_pos large, ← long]
    refine ⟨rfl, rfl, ?_⟩
    rw [stored] at b'_eq
    exact b'_eq
  · simp only [if_neg large, Prod.mk.injEq] at effect
    rcases effect with ⟨rfl, rfl, stored⟩
    refine ⟨ready', binding, bound, ?_⟩
    rw [if_neg large]
    refine ⟨rfl, ?_⟩
    rw [b'_eq, stored, ← bound, Function.update_eq_self]

theorem delete_some {tls tls' : Tls} {code : Nat} {place : Slot} (ready : tls.For hash key)
    (located : b.locate uidNone hash key = some place) (outcome : FindKeyAnd.delete.Outcome b uidNone tls code tls' b') :
    tls'.For hash key ∧ tls'.valLong = tls.valLong ∧ b' = Function.update b place none := by
  unfold FindKeyAnd.Outcome at outcome
  rw [ready.hashed, ready.keyed, located] at outcome
  rcases outcome with ⟨binding, keyAddr, valAddr, bound, effect, b'_eq⟩
  have ready' := ready.lookedUp uidNone (some place) keyAddr valAddr
  have long := Tls.lookedUp_valLong tls uidNone (some place) keyAddr valAddr
  generalize tls.lookedUp uidNone (some place) keyAddr valAddr = tls1 at effect ready' long
  simp only [FindKeyAnd.effect, Prod.mk.injEq] at effect
  rcases effect with ⟨rfl, rfl, deleted⟩
  rw [deleted] at b'_eq
  exact ⟨⟨ready'.hashed, ready'.keyed, rfl⟩, long, b'_eq⟩

/-- `shf_add_key_val`, where it can create the key if it has to. -/
theorem InUse.addKeyVal_ends (inUse : InUse cfg s b) (linkable : cfg.Linkable) (ready : s.shared.tls.For hash key)
    (accepts : b.locate uidNone hash key = none → cfg.Accepts key (.copy (leBytes 8 add.toNat))) :
    Ends sizeLimit (addKeyVal mapped cfg add.toNat)
      (fun code s' => s'.shared.tls.For hash key ∧ ∃ b', InUse cfg s' b' ∧
        AddOutcome b hash key add code s'.shared.tls.valLong b')
      (fun e s' => e = .tabOverflow ∨ Refused cfg s'.shared.vfs e) s := by
  unfold AddOutcome
  rcases inUse.setTls_step fun tls => { tls with valLong := add.toNat } with ⟨s1, run1, tls1, inUse1⟩
  have ready1 : s1.shared.tls.For hash key := tls1 ▸ ready.withLong _
  have long1 : s1.shared.tls.valLong = add.toNat := by rw [tls1]
  refine ends_step (ends_after run1 (inUse1.find_ends linkable uidNone .atomAdd trivial)) (fun _ _ refused => .inr refused) ?_
  rintro code s2 ⟨b2, inUse2, outcome⟩
  cases located : b.locate uidNone hash key with
  | none =>
    rcases atomAdd_none ready1 located outcome with ⟨rfl, rfl, ready2⟩
    rw [if_neg (by decide), if_pos rfl]
    have put := inUse2.putKeyVal_ends linkable (by rw [ready2.keyed]; exact accepts located)
    refine ends_step put (fun _ _ stops => stops) ?_
    rintro code s3 ⟨b3, inUse3, ⟨none_, _⟩ | ⟨ref, _, free, b3_eq, tls3⟩⟩
    · cases none_
    · have ready3 : s3.shared.tls.For hash key := tls3 ▸ ready2.withUid _
      rcases inUse3.setTls_step fun tls => { tls with valLong := add.toNat } with ⟨s4, run4, tls4, inUse4⟩
      refine ends_after run4 (ends_pure ⟨tls4 ▸ ready3.withLong _, b3, inUse4, rfl, by rw [tls4], ref, ?_⟩)
      rw [ready2.hashed, ready2.keyed] at b3_eq
      rw [ready2.hashed] at free
      exact ⟨free, b3_eq⟩
  | some place =>
    rcases atomAdd_some ready1 located outcome with ⟨ready2, binding, bound, effect⟩
    rw [long1] at effect
    by_cases large : 8 ≤ binding.val.length
    · rw [if_pos large] at effect
      rcases effect with ⟨rfl, long2, b2_eq⟩
      rw [if_pos rfl]
      refine ends_after (getTls_ends s2) ?_
      by_cases zero : s2.shared.tls.valLong = 0
      · rw [when_true zero]
        have again := locate_revalued located bound (leBytes 8 s2.shared.tls.valLong ++ binding.val.drop 8)
        rw [← b2_eq] at again
        have deleted : Ends sizeLimit (delKeyVal mapped cfg >>= fun _ => pure ()) (fun _ s' => ∃ code b', InUse cfg s' b' ∧
            FindKeyAnd.delete.Outcome b2 uidNone s2.shared.tls code s'.shared.tls b') (fun e s' => Refused cfg s'.shared.vfs e) s2 :=
          ends_step (inUse2.find_ends linkable uidNone .delete ready2.ttl) (fun _ _ refused => refused)
            fun code s3 done => ends_pure ⟨code, done⟩
        refine ends_step deleted (fun _ _ refused => .inr refused) ?_
        rintro _ s3 ⟨code, b3, inUse3, outcome⟩
        rcases delete_some ready2 again outcome with ⟨ready3, long3, b3_eq⟩
        refine ends_pure ⟨ready3, b3, inUse3, binding, bound, ?_⟩
        rw [if_pos large, long3, if_pos zero, b3_eq, b2_eq, Function.update_idem]
        exact ⟨rfl, long2, rfl⟩
      · refine ends_after (when_false zero _ _) (ends_pure ⟨ready2, b2, inUse2, binding, bound, ?_⟩)
        rw [if_pos large, if_neg zero]
        exact ⟨rfl, long2, b2_eq⟩
    · rw [if_neg large] at effect
      rcases effect with ⟨rfl, rfl⟩
      rw [if_neg (by decide), if_neg (by decide)]
      refine ends_pure ⟨ready2, b2, inUse2, binding, bound, ?_⟩
      rw [if_neg large]
      exact ⟨rfl, rfl⟩

end Adding

end SharedHashFile.Store
