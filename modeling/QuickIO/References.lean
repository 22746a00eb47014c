import Mathlib.Data.List.Count
import QuickIO.Server

/-!
# References to subscription objects

Every entry of a client holds a reference to its subscription, and so does
everyone who got one from `sub_get` or `sub_ref`. `Ledger` says that the counts
are these modulo 2³² and that nothing unreferenced stays in a table; as long as
no count has wrapped they are exact, and the tables hold exactly the objects
somebody refers to. `Counted` says who refers to them.
-/
namespace QuickIO

open Server

/-! ### Reference counts -/

/-- The count of one reference more than `k`. -/
theorem refs_succ {refs : UInt32} {k : Nat} (count : refs = UInt32.ofNat k) :
    refs + 1 = UInt32.ofNat (k + 1) := by
  rw [count, UInt32.ofNat_add]
  rfl

/-- The count of one reference fewer than `k`. -/
theorem refs_pred {refs : UInt32} {k : Nat} (count : refs = UInt32.ofNat k) (positive : 0 < k) :
    refs - 1 = UInt32.ofNat (k - 1) := by
  rw [count, UInt32.ofNat_sub positive]
  rfl

/-- Below 2³² the count is the number. -/
theorem refs_eq_zero_iff {k : Nat} (fits : k < 2 ^ 32) : UInt32.ofNat k = 0 ↔ k = 0 := by
  rw [UInt32.ofNat_eq_iff_mod_eq_toNat, Nat.mod_eq_of_lt fits]
  rfl

/-- No number of references has reached 2³², and every object that is referred
to is in its table. -/
structure Exact (σ : Server) (n : SubId → Nat) : Prop where
  fits : ∀ s, s < σ.nextSub → n s < 2 ^ 32
  listed : ∀ s, s < σ.nextSub → 0 < n s →
    σ.table (σ.heap s).ev.evPath (σ.heap s).evExtra = some s

/-- The counts are `n` modulo 2³², a table holds an object under its own key and
until it is freed, and an object nobody refers to has been freed and is in no table. -/
structure Ledger (σ : Server) (n : SubId → Nat) : Prop where
  count : ∀ s, s < σ.nextSub → (σ.heap s).refs = UInt32.ofNat (n s)
  keyed : ∀ p e s, σ.table p e = some s →
    s < σ.nextSub ∧ (σ.heap s).ev.evPath = p ∧ (σ.heap s).evExtra = e
  live : ∀ p e s, σ.table p e = some s → (σ.heap s).freed = false
  unused : ∀ s, s < σ.nextSub → n s = 0 →
    (σ.heap s).freed = true ∧ ∀ p e, σ.table p e ≠ some s
  exact : σ.wrapped = false → Exact σ n

section Ledger

variable {σ : Server} {n : SubId → Nat}

/-- What a table holds is referred to. -/
theorem Ledger.positive (ledger : Ledger σ n) {p e : Bytes} {s : SubId}
    (stored : σ.table p e = some s) : 0 < n s := by
  obtain ⟨allocated, -, -⟩ := ledger.keyed p e s stored
  refine Nat.pos_of_ne_zero fun none_ => ?_
  exact (ledger.unused s allocated none_).2 p e stored

theorem Ledger.refs_toNat (ledger : Ledger σ n) (fits : σ.wrapped = false) {s : SubId}
    (allocated : s < σ.nextSub) : (σ.heap s).refs.toNat = n s := by
  rw [ledger.count s allocated]
  exact UInt32.toNat_ofNat_of_lt' ((ledger.exact fits).fits s allocated)

theorem Ledger.refs_eq_zero (ledger : Ledger σ n) (fits : σ.wrapped = false) {s : SubId}
    (allocated : s < σ.nextSub) : (σ.heap s).refs = 0 ↔ n s = 0 := by
  rw [ledger.count s allocated]
  exact refs_eq_zero_iff ((ledger.exact fits).fits s allocated)

/-- As long as no count wraps, a table holds exactly the objects referred to. -/
theorem Ledger.stored (ledger : Ledger σ n) (fits : σ.wrapped = false) (p e : Bytes) (s : SubId) :
    σ.table p e = some s ↔
      s < σ.nextSub ∧ n s ≠ 0 ∧ (σ.heap s).ev.evPath = p ∧ (σ.heap s).evExtra = e := by
  constructor
  · intro stored
    obtain ⟨allocated, key⟩ := ledger.keyed p e s stored
    exact ⟨allocated, Nat.ne_of_gt (ledger.positive stored), key⟩
  · rintro ⟨allocated, used, rfl, rfl⟩
    exact (ledger.exact fits).listed s allocated (Nat.pos_of_ne_zero used)

/-- Nothing but the counts, the keys, the tables and the wrapping matters. -/
theorem Ledger.congr (ledger : Ledger σ n) (τ : Server) (next : τ.nextSub = σ.nextSub)
    (table : τ.table = σ.table) (wrapped : τ.wrapped = σ.wrapped)
    (heap : ∀ s, (τ.heap s).refs = (σ.heap s).refs ∧ (τ.heap s).ev = (σ.heap s).ev ∧
      (τ.heap s).evExtra = (σ.heap s).evExtra ∧ (τ.heap s).freed = (σ.heap s).freed) :
    Ledger τ n where
  count s allocated := by
    rw [(heap s).1]
    exact ledger.count s (next ▸ allocated)
  keyed p e s := by
    obtain ⟨-, ev, extra, -⟩ := heap s
    rw [next, table, ev, extra]
    exact ledger.keyed p e s
  live p e s := by
    rw [table, (heap s).2.2.2]
    exact ledger.live p e s
  unused s allocated none_ := by
    obtain ⟨-, -, -, freed⟩ := heap s
    rw [table, freed]
    exact ledger.unused s (next ▸ allocated) none_
  exact fits := by
    obtain ⟨below, listed⟩ := ledger.exact (wrapped ▸ fits)
    refine ⟨by rwa [next], fun s allocated used => ?_⟩
    obtain ⟨-, ev, extra, -⟩ := heap s
    rw [table, ev, extra]
    exact listed s (next ▸ allocated) used

theorem Ledger.setClient (ledger : Ledger σ n) (c : ClientId) (client : Client) :
    Ledger (σ.setClient c client) n :=
  ledger.congr _ rfl rfl rfl fun _ => ⟨rfl, rfl, rfl, rfl⟩

theorem Ledger.setSubscribers (ledger : Ledger σ n) (s : SubId)
    (subscribers : List (Nat × ClientId)) :
    Ledger (σ.setSub s { σ.heap s with subscribers }) n := by
  refine ledger.congr _ rfl rfl rfl fun s' => ?_
  by_cases same : s' = s
  · subst same
    simp [setSub]
  · simp [setSub, same]

theorem Ledger.clientOff (ledger : Ledger σ n) (c : ClientId) (s : SubId) :
    Ledger (σ.clientOff c s) n := by
  unfold Server.clientOff
  split
  · exact ledger
  · exact ledger.congr _ rfl rfl rfl fun _ => ⟨rfl, rfl, rfl, rfl⟩

/-- The count of `s` changes, and `s` stays referred to. -/
theorem Ledger.setRefs (ledger : Ledger σ n) (wrapped : Bool) {s : SubId} {k : Nat}
    (used : 0 < n s) (positive : 0 < k)
    (fits : wrapped = false → σ.wrapped = false ∧ k < 2 ^ 32) :
    Ledger { σ.setSub s { σ.heap s with refs := UInt32.ofNat k } with wrapped }
      (Function.update n s k) := by
  have other : ∀ r, r ≠ s →
      (σ.setSub s { σ.heap s with refs := UInt32.ofNat k }).heap r = σ.heap r :=
    fun r ne => by simp [setSub, ne]
  have same : (σ.setSub s { σ.heap s with refs := UInt32.ofNat k }).heap s =
      { σ.heap s with refs := UInt32.ofNat k } := by
    simp [setSub]
  -- neither the key of an object nor whether it is freed changes
  have kept : ∀ r, ((σ.setSub s { σ.heap s with refs := UInt32.ofNat k }).heap r).ev =
      (σ.heap r).ev ∧ ((σ.setSub s { σ.heap s with refs := UInt32.ofNat k }).heap r).evExtra =
      (σ.heap r).evExtra ∧ ((σ.setSub s { σ.heap s with refs := UInt32.ofNat k }).heap r).freed =
      (σ.heap r).freed := by
    intro r
    by_cases here : r = s
    · subst here
      rw [same]
      exact ⟨rfl, rfl, rfl⟩
    · rw [other r here]
      exact ⟨rfl, rfl, rfl⟩
  refine ⟨?_, ?_, ?_, ?_, ?_⟩
  · intro r allocated
    by_cases here : r = s
    · subst here
      exact (congrArg Subscription.refs same).trans (by rw [Function.update_self])
    · rw [Function.update_of_ne here]
      exact (congrArg Subscription.refs (other r here)).trans (ledger.count r allocated)
  · intro p e r stored
    obtain ⟨ev, extra, -⟩ := kept r
    obtain ⟨allocated, path, rest⟩ := ledger.keyed p e r stored
    exact ⟨allocated, (congrArg Event.evPath ev).trans path, extra.trans rest⟩
  · exact fun p e r stored => (kept r).2.2.trans (ledger.live p e r stored)
  · intro r allocated none_
    have elsewhere : r ≠ s := by
      rintro rfl
      rw [Function.update_self] at none_
      exact absurd none_ (Nat.ne_of_gt positive)
    rw [Function.update_of_ne elsewhere] at none_
    obtain ⟨freed, absent⟩ := ledger.unused r allocated none_
    exact ⟨(kept r).2.2.trans freed, absent⟩
  · intro unwrapped
    obtain ⟨before, small⟩ := fits unwrapped
    obtain ⟨below, listed⟩ := ledger.exact before
    refine ⟨fun r allocated => ?_, fun r allocated here => ?_⟩
    · by_cases here : r = s
      · rwa [here, Function.update_self]
      · rw [Function.update_of_ne here]
        exact below r allocated
    · -- who is referred to is as it was
      have before : 0 < n r := by
        by_cases eq : r = s
        · exact eq ▸ used
        · rwa [Function.update_of_ne eq] at here
      obtain ⟨ev, extra, -⟩ := kept r
      change σ.table _ _ = some r
      rw [ev, extra]
      exact listed r allocated before

/-- One more reference to an object that has one. -/
theorem Ledger.subRef (ledger : Ledger σ n) {s : SubId} (allocated : s < σ.nextSub)
    (positive : 0 < n s) : Ledger (σ.subRef s) (Function.update n s (n s + 1)) := by
  have more := refs_succ (ledger.count s allocated)
  simp only [Server.subRef, more]
  refine ledger.setRefs _ positive (Nat.succ_pos _) fun unwrapped => ?_
  obtain ⟨before, nonzero⟩ := Bool.or_eq_false_iff.mp unwrapped
  -- the count fitted, so only the step to 2³² itself could leave
  have below := (ledger.exact before).fits s allocated
  refine ⟨before, Nat.lt_of_le_of_ne below fun full => ?_⟩
  rw [full] at nonzero
  cases nonzero

/-- A new object takes a place that was free. -/
theorem Ledger.subCreate (ledger : Ledger σ n) (ev : Event Handlers) (evExtra : Bytes)
    (absent : σ.wrapped = false → σ.table ev.evPath evExtra = none) :
    Ledger (σ.subCreate ev evExtra) (Function.update n σ.nextSub 1) := by
  have other : ∀ r, r < σ.nextSub → (σ.subCreate ev evExtra).heap r = σ.heap r := fun r below => by
    simp [Server.subCreate, setSub, Nat.ne_of_lt below]
  have same : (σ.subCreate ev evExtra).heap σ.nextSub =
      { ev, evExtra, subscribers := [], refs := 1, freed := false } := by
    simp [Server.subCreate, setSub]
  have table : ∀ p e, (σ.subCreate ev evExtra).table p e =
      if p = ev.evPath ∧ e = evExtra then some σ.nextSub else σ.table p e := by
    intro p e
    by_cases path : p = ev.evPath
    · subst path
      by_cases extra : e = evExtra <;> simp [Server.subCreate, extra]
    · simp [Server.subCreate, path]
  have count : ∀ r, r < σ.nextSub → Function.update n σ.nextSub 1 r = n r :=
    fun r below => Function.update_of_ne (Nat.ne_of_lt below) _ _
  have new : ∀ {p e r}, (σ.subCreate ev evExtra).table p e = some r →
      (p = ev.evPath ∧ e = evExtra ∧ r = σ.nextSub) ∨ σ.table p e = some r := by
    intro p e r stored
    rw [table] at stored
    split at stored
    next key => exact .inl ⟨key.1, key.2, (Option.some.inj stored).symm⟩
    next => exact .inr stored
  refine ⟨?_, ?_, ?_, ?_, ?_⟩
  · -- the new object starts with the reference that is handed out
    intro r below
    rcases Nat.lt_succ_iff_lt_or_eq.mp below with old | rfl
    · rw [other r old, count r old]
      exact ledger.count r old
    · rw [same, Function.update_self]
      rfl
  · -- and is stored under its key
    intro p e r stored
    rcases new stored with ⟨rfl, rfl, rfl⟩ | before
    · rw [same]
      exact ⟨Nat.lt_succ_self _, rfl, rfl⟩
    · obtain ⟨old, key⟩ := ledger.keyed p e r before
      rw [other r old]
      exact ⟨Nat.lt_succ_of_lt old, key⟩
  · intro p e r stored
    rcases new stored with ⟨rfl, rfl, rfl⟩ | before
    · rw [same]
    · rw [other r (ledger.keyed p e r before).1]
      exact ledger.live p e r before
  · intro r below none_
    rcases Nat.lt_succ_iff_lt_or_eq.mp below with old | rfl
    · rw [count r old] at none_
      obtain ⟨freed, unstored⟩ := ledger.unused r old none_
      rw [other r old]
      refine ⟨freed, fun p e stored => ?_⟩
      rcases new stored with ⟨-, -, rfl⟩ | before
      · exact Nat.lt_irrefl _ old
      · exact unstored p e before
    · rw [Function.update_self] at none_
      cases none_
  · intro unwrapped
    obtain ⟨below, listed⟩ := ledger.exact unwrapped
    refine ⟨?_, ?_⟩
    · intro r allocated
      rcases Nat.lt_succ_iff_lt_or_eq.mp allocated with old | rfl
      · rw [count r old]
        exact below r old
      · rw [Function.update_self]
        decide
    · -- nothing was under the key of the new object
      intro r allocated used
      rw [table]
      rcases Nat.lt_succ_iff_lt_or_eq.mp allocated with old | rfl
      · rw [count r old] at used
        have stored := listed r old used
        rw [other r old]
        rw [if_neg, stored]
        rintro ⟨path, extra⟩
        rw [path, extra, absent unwrapped] at stored
        cases stored
      · rw [same]
        exact if_pos ⟨rfl, rfl⟩

/-- What `sub_get` does: it takes a reference to an object its table holds, or makes one. -/
theorem subGet_cases {τ : Server} {ev : Event Handlers} {evExtra : Bytes} {orCreate : Bool}
    {s : SubId} (got : σ.subGet ev evExtra orCreate = some (s, τ)) :
    (σ.table ev.evPath evExtra = some s ∧ (σ.heap s).refs ≠ 0 ∧ τ = σ.subRef s) ∨
      ((∀ r, σ.table ev.evPath evExtra = some r → (σ.heap r).refs = 0) ∧
        s = σ.nextSub ∧ τ = σ.subCreate ev evExtra) := by
  unfold Server.subGet getIfExists at got
  cases stored : σ.table ev.evPath evExtra with
  | none =>
    simp only [stored] at got
    obtain ⟨-, ⟨⟩⟩ := Option.ite_none_right_eq_some.mp got
    exact .inr ⟨fun r eq => absurd eq (by simp), rfl, rfl⟩
  | some r =>
    simp only [stored] at got
    by_cases zero : (σ.heap r).refs = 0
    · simp only [zero, if_true] at got
      obtain ⟨-, ⟨⟩⟩ := Option.ite_none_right_eq_some.mp got
      exact .inr ⟨fun r' eq => by cases eq; exact zero, rfl, rfl⟩
    · simp only [zero, if_false] at got
      cases got
      exact .inl ⟨rfl, zero, rfl⟩

/-- `sub_get` of an object whose count is not zero. -/
theorem Server.subGet_live (σ : Server) (ev : Event Handlers) {evExtra : Bytes} {s : SubId}
    (stored : σ.table ev.evPath evExtra = some s) (live : (σ.heap s).refs ≠ 0) (orCreate : Bool) :
    σ.subGet ev evExtra orCreate = some (s, σ.subRef s) := by
  simp [Server.subGet, getIfExists, stored, live]

/-- As long as no count wraps, `sub_get` finds what is in the table. -/
theorem Ledger.subGet_eq (ledger : Ledger σ n) (fits : σ.wrapped = false) (ev : Event Handlers)
    (evExtra : Bytes) (orCreate : Bool) :
    σ.subGet ev evExtra orCreate =
      match σ.table ev.evPath evExtra with
      | some s => some (s, σ.subRef s)
      | none => if orCreate then some (σ.nextSub, σ.subCreate ev evExtra) else none := by
  cases stored : σ.table ev.evPath evExtra with
  | none =>
    unfold Server.subGet getIfExists
    simp only [stored]
  | some s =>
    obtain ⟨allocated, used, -⟩ := (ledger.stored fits _ _ s).mp stored
    exact σ.subGet_live ev stored (mt (ledger.refs_eq_zero fits allocated).mp used) orCreate

/-- The table that no longer holds `s`, when it did. -/
theorem table_dropped (σ : Server) (s : SubId) (p e : Bytes) :
    (if σ.table (σ.heap s).ev.evPath (σ.heap s).evExtra = some s then
        Function.update σ.table (σ.heap s).ev.evPath
          (Function.update (σ.table (σ.heap s).ev.evPath) (σ.heap s).evExtra none)
      else σ.table) p e =
      if (p = (σ.heap s).ev.evPath ∧ e = (σ.heap s).evExtra) ∧ σ.table p e = some s then none
      else σ.table p e := by
  split
  next here =>
    by_cases path : p = (σ.heap s).ev.evPath
    · subst path
      by_cases extra : e = (σ.heap s).evExtra
      · subst extra
        simp [here]
      · simp [extra]
    · simp [path]
  next elsewhere =>
    split
    next both =>
      obtain ⟨⟨rfl, rfl⟩, here⟩ := both
      exact absurd here elsewhere
    next => rfl

/-- The count of `s` has come to zero: the object leaves its table and is freed, whether this
was the last reference or not. -/
theorem Ledger.free (ledger : Ledger σ n) {s : SubId} {k : Nat} {table : Bytes → Bytes → Option SubId}
    (allocated : s < σ.nextSub) (positive : 0 < n s) (zero : UInt32.ofNat k = 0)
    (fits : σ.wrapped = false → k = 0)
    (dropped : ∀ p e, table p e =
      if (p = (σ.heap s).ev.evPath ∧ e = (σ.heap s).evExtra) ∧ σ.table p e = some s then none
      else σ.table p e) :
    Ledger { σ.setSub s { σ.heap s with refs := 0, freed := true } with table }
      (Function.update n s k) := by
  have kept : ∀ {p e r}, table p e = some r → σ.table p e = some r ∧ r ≠ s := by
    intro p e r stored
    rw [dropped] at stored
    split at stored
    next => cases stored
    next out =>
      refine ⟨stored, ?_⟩
      rintro rfl
      obtain ⟨-, path, extra⟩ := ledger.keyed p e r stored
      exact out ⟨⟨path.symm, extra.symm⟩, stored⟩
  refine ⟨?_, ?_, ?_, ?_, ?_⟩
  · intro r below
    by_cases same : r = s
    · subst same
      simp [setSub, zero]
    · simpa [setSub, same] using ledger.count r below
  · intro p e r stored
    obtain ⟨before, other⟩ := kept stored
    simpa [setSub, other] using ledger.keyed p e r before
  · intro p e r stored
    obtain ⟨before, other⟩ := kept stored
    simpa [setSub, other] using ledger.live p e r before
  · intro r below none_
    by_cases same : r = s
    · subst same
      exact ⟨by simp [setSub], fun p e stored => (kept stored).2 rfl⟩
    · rw [Function.update_of_ne same] at none_
      obtain ⟨freed, absent⟩ := ledger.unused r below none_
      refine ⟨by simpa [setSub, same] using freed, fun p e stored => ?_⟩
      exact absent p e (kept stored).1
  · intro unwrapped
    obtain ⟨small, listed⟩ := ledger.exact unwrapped
    refine ⟨fun r below => ?_, fun r below used => ?_⟩
    · by_cases same : r = s
      · rw [same, Function.update_self, fits unwrapped]
        decide
      · rw [Function.update_of_ne same]
        exact small r below
    · have other : r ≠ s := by
        rintro rfl
        rw [Function.update_self, fits unwrapped] at used
        cases used
      rw [Function.update_of_ne other] at used
      have stored := listed r below used
      have unchanged : (σ.setSub s { σ.heap s with refs := 0, freed := true }).heap r =
          σ.heap r := by
        simp [setSub, other]
      change table _ _ = some r
      rw [unchanged, dropped, if_neg, stored]
      rintro ⟨-, here⟩
      rw [stored] at here
      exact other (Option.some.inj here)

/-- What `sub_unref` leaves of the count. -/
theorem refs_subUnref (σ : Server) (s : SubId) :
    ((σ.subUnref s).heap s).refs = (σ.heap s).refs - 1 := by
  simp only [Server.subUnref]
  split <;> simp [setSub]

/-- An object whose count comes to zero is freed. -/
theorem freed_subUnref (σ : Server) {s : SubId} (last : (σ.heap s).refs - 1 = 0) :
    ((σ.subUnref s).heap s).freed = true := by
  simp [Server.subUnref, last, setSub]

/-- What `sub_unref` leaves in the tables. -/
theorem table_subUnref (σ : Server) (s : SubId) (p e : Bytes) :
    (σ.subUnref s).table p e =
      if (σ.heap s).refs - 1 = 0 ∧ (p = (σ.heap s).ev.evPath ∧ e = (σ.heap s).evExtra) ∧
        σ.table p e = some s then none
      else σ.table p e := by
  simp only [Server.subUnref]
  split
  next last =>
    refine (table_dropped σ s p e).trans ?_
    simp only [last, true_and]
  next more => simp [setSub, more]

/-- One reference fewer; the last one takes the object out of its table. -/
theorem Ledger.subUnref (ledger : Ledger σ n) {s : SubId} (allocated : s < σ.nextSub)
    (positive : 0 < n s) : Ledger (σ.subUnref s) (Function.update n s (n s - 1)) := by
  have count := refs_pred (ledger.count s allocated) positive
  unfold Server.subUnref
  dsimp only
  rw [count]
  split
  next last =>
    rw [last]
    refine ledger.free allocated positive last (fun fits => ?_) (table_dropped σ s)
    have below := (ledger.exact fits).fits s allocated
    exact (refs_eq_zero_iff (by omega)).mp last
  next more =>
    refine ledger.setRefs σ.wrapped positive ?_ fun fits => ⟨fits, ?_⟩
    · refine Nat.pos_of_ne_zero fun none_ => more ?_
      rw [none_]
      rfl
    · have below := (ledger.exact fits).fits s allocated
      omega

theorem Ledger.subCleanup (ledger : Ledger σ n) (c : ClientId) {s : SubId} (csub : ClientSub)
    (table : Bool) (allocated : s < σ.nextSub) (positive : 0 < n s) :
    Ledger (σ.subCleanup c s csub table) (Function.update n s (n s - 1)) := by
  have off : Ledger ((σ.listRemove s csub.idx).clientOff c s).subFree n := by
    have listed : Ledger ((σ.listRemove s csub.idx).clientOff c s) n :=
      Ledger.clientOff (ledger.setSubscribers s _) c s
    exact listed.congr _ rfl rfl rfl fun _ => ⟨rfl, rfl, rfl, rfl⟩
  have next : ((σ.listRemove s csub.idx).clientOff c s).subFree.nextSub = σ.nextSub := by
    unfold Server.clientOff
    split <;> rfl
  have inner := off.subUnref (next ▸ allocated) positive
  cases table
  · exact inner
  · exact (inner.setClient c _).setClient c _

end Ledger

/-! ### References -/

/-- The references to a subscription: its entries and those held outside. -/
def total (users : List (ClientId × SubId)) (held : List SubId) (s : SubId) : Nat :=
  (users.map Prod.snd).count s + held.count s

theorem total_cons_user (users : List (ClientId × SubId)) (held : List SubId) (c : ClientId)
    (s : SubId) :
    total ((c, s) :: users) held = Function.update (total users held) s (total users held s + 1) := by
  funext r
  by_cases same : r = s
  · subst same
    simp only [total, List.map_cons, List.count_cons_self, Function.update_self]
    omega
  · simp [total, same, Ne.symm same]

theorem total_cons_held (users : List (ClientId × SubId)) (held : List SubId) (s : SubId) :
    total users (s :: held) = Function.update (total users held) s (total users held s + 1) := by
  funext r
  by_cases same : r = s
  · subst same
    simp only [total, List.count_cons_self, Function.update_self]
    omega
  · simp [total, same, Ne.symm same]

theorem total_erase_user (users : List (ClientId × SubId)) (held : List SubId) (c : ClientId)
    (s : SubId) (member : (c, s) ∈ users) :
    0 < total users held s ∧
    total (users.erase (c, s)) held =
      Function.update (total users held) s (total users held s - 1) := by
  have split : total users held = total ((c, s) :: users.erase (c, s)) held := by
    funext r
    have perm := (List.perm_cons_erase member).map Prod.snd
    rw [total, total, perm.count_eq]
  rw [split, total_cons_user]
  simp

theorem total_erase_held (users : List (ClientId × SubId)) (held : List SubId) (s : SubId)
    (member : s ∈ held) :
    0 < total users held s ∧
    total users (held.erase s) =
      Function.update (total users held) s (total users held s - 1) := by
  have split : total users held = total users (s :: held.erase s) := by
    funext r
    rw [total, total, (List.perm_cons_erase member).count_eq]
  rw [split, total_cons_held]
  simp

/-- `users` lists the entries, and the counts are right. -/
structure Counted (σ : Server) (held : List SubId) (users : List (ClientId × SubId)) : Prop where
  once : users.Nodup
  entries : ∀ c s, (c, s) ∈ users ↔ σ.entry c s ≠ none
  allocated : ∀ s, 0 < total users held s → s < σ.nextSub
  ledger : Ledger σ (total users held)

section Counted

variable {σ τ : Server} {held : List SubId} {users : List (ClientId × SubId)} {c : ClientId}
  {s : SubId}

theorem Counted.congr (counted : Counted σ held users)
    (entry : ∀ c s, τ.entry c s = none ↔ σ.entry c s = none) (next : τ.nextSub = σ.nextSub)
    (ledger : Ledger τ (total users held)) : Counted τ held users where
  once := counted.once
  entries c s := by rw [counted.entries c s, ne_eq, ne_eq, entry c s]
  allocated s used := next ▸ counted.allocated s used
  ledger := ledger

theorem Counted.of_entry (counted : Counted σ held users) {csub : ClientSub}
    (stored : σ.entry c s = some csub) : (c, s) ∈ users ∧ s < σ.nextSub := by
  have member := (counted.entries c s).mpr (by rw [stored]; exact Option.some_ne_none _)
  exact ⟨member, counted.allocated s (total_erase_user users held c s member).1⟩

theorem Counted.of_held (counted : Counted σ held users) (member : s ∈ held) :
    0 < total users held s ∧ s < σ.nextSub := by
  have positive := (total_erase_held users held s member).1
  exact ⟨positive, counted.allocated s positive⟩

theorem update_pos (n : SubId → Nat) {s : SubId} {k : Nat} (positive : 0 < n s) (r : SubId)
    (used : 0 < Function.update n s k r) : 0 < n r := by
  by_cases same : r = s
  · exact same ▸ positive
  · rwa [Function.update_of_ne same] at used

theorem Counted.insert (counted : Counted σ held users) (absent : σ.entry c s = none)
    (positive : 0 < total users held s)
    (entry : ∀ c' s', τ.entry c' s' = none ↔ ¬(c' = c ∧ s' = s) ∧ σ.entry c' s' = none)
    (next : τ.nextSub = σ.nextSub)
    (ledger : Ledger τ (Function.update (total users held) s (total users held s + 1))) :
    Counted τ held ((c, s) :: users) where
  once := by
    refine List.nodup_cons.mpr ⟨fun member => ?_, counted.once⟩
    exact (counted.entries c s).mp member absent
  entries c' s' := by
    rw [List.mem_cons, counted.entries c' s', ne_eq, ne_eq, entry c' s', Prod.mk.injEq]
    tauto
  allocated r used := by
    rw [total_cons_user] at used
    exact next ▸ counted.allocated r (update_pos _ positive r used)
  ledger := by rwa [total_cons_user]

theorem Counted.remove (counted : Counted σ held users) {csub : ClientSub}
    (stored : σ.entry c s = some csub)
    (entry : ∀ c' s', τ.entry c' s' = none ↔ (c' = c ∧ s' = s) ∨ σ.entry c' s' = none)
    (next : τ.nextSub = σ.nextSub)
    (ledger : Ledger τ (Function.update (total users held) s (total users held s - 1))) :
    Counted τ held (users.erase (c, s)) := by
  obtain ⟨member, -⟩ := counted.of_entry stored
  obtain ⟨positive, erased⟩ := total_erase_user users held c s member
  refine ⟨counted.once.erase _, ?_, ?_, ?_⟩
  · intro c' s'
    rw [counted.once.mem_erase_iff, counted.entries c' s', ne_eq, ne_eq, ne_eq, entry c' s',
      Prod.mk.injEq]
    tauto
  · intro r used
    rw [erased] at used
    exact next ▸ counted.allocated r (update_pos _ positive r used)
  · rwa [erased]

/-- A reference held outside comes or goes. -/
theorem Counted.hold (counted : Counted σ held users) (entry : ∀ c, τ.entry c = σ.entry c)
    (next : σ.nextSub ≤ τ.nextSub) (allocated : s < τ.nextSub)
    (ledger : Ledger τ (Function.update (total users held) s (total users held s + 1))) :
    Counted τ (s :: held) users where
  once := counted.once
  entries c s := by rw [entry, counted.entries c s]
  allocated r used := by
    rw [total_cons_held] at used
    by_cases same : r = s
    · exact same ▸ allocated
    · rw [Function.update_of_ne same] at used
      exact Nat.lt_of_lt_of_le (counted.allocated r used) next
  ledger := by rwa [total_cons_held]

theorem Counted.unhold (counted : Counted σ held users) (member : s ∈ held)
    (entry : ∀ c, τ.entry c = σ.entry c) (next : τ.nextSub = σ.nextSub)
    (ledger : Ledger τ (Function.update (total users held) s (total users held s - 1))) :
    Counted τ (held.erase s) users := by
  obtain ⟨positive, erased⟩ := total_erase_held users held s member
  refine ⟨counted.once, fun c s => by rw [entry, counted.entries c s], ?_, ?_⟩
  · intro r used
    rw [erased] at used
    exact next ▸ counted.allocated r (update_pos _ positive r used)
  · rwa [erased]

end Counted

end QuickIO
