import UniqueId.Proofs.Region.Slots

/-!
# Stores that overlap

Where windows overlap, a region is no array of slots any more, but its bytes still tell what has
been stored: at each index stands what the **last** store has put there that succeeded and whose
window covers the index.

* **What no call changes** (`Region.SameShape`): the length, the number of bytes, and with them the
  offsets in reach. So whether a store succeeds does not depend on the ones before it
  (`Region.SameShape.snd_runStores`).
* **One store, then many**: a store changes the bytes that it writes and no others
  (`Region.getElem?_contents_access_of_writes`, `Region.getElem?_contents_access_of_not_writes`); a
  byte that no store writes stays through a run of them
  (`Region.getElem?_contents_runStores_of_forall`), and so does any byte from the last store on that
  writes it (`Region.getElem?_contents_runStores_of_last`).
* **Order matters** only where two stores write different bytes at one index
  (`Region.runStores_swap_iff`).
-/

namespace UniqueId

/-- The calls of a run may be taken in two parts. -/
theorem Access.fst_run_append {σ : Type} (step : σ → Access → σ × Reply) (s : σ)
    (calls more : List Access) :
    (run step s (calls ++ more)).1 = (run step (run step s calls).1 more).1 := by
  induction calls generalizing s with
  | nil => rfl
  | cons a rest ih => exact ih (step s a).1

/-! ### What no call changes -/

namespace Region

variable {start r s : Region} {o : Int64}

/-- A region that has the **same shape** as one at the start: their lengths agree, and so do the
numbers of their bytes, which back them. -/
structure SameShape (start r : Region) : Prop where
  backed : r.Backed
  extent_eq : r.extent = start.extent
  length_eq : r.length = start.length
  length_contents_eq : r.contents.length = start.contents.length

namespace SameShape

theorem refl (hb : start.Backed) : SameShape start start :=
  ⟨hb, rfl, rfl, rfl⟩

theorem trans (hr : SameShape start r) (hs : SameShape r s) : SameShape start s :=
  ⟨hs.backed, hs.extent_eq.trans hr.extent_eq, hs.length_eq.trans hr.length_eq,
    hs.length_contents_eq.trans hr.length_contents_eq⟩

/-- In regions of the same shape the same offsets pass the check. -/
theorem check_eq (h : SameShape start r) (o : Int64) : r.check o = start.check o := by
  rw [Region.check_eq, Region.check_eq, h.extent_eq]

/-- Regions of the same shape that hold the same bytes are equal. -/
theorem eq_of_contents (hr : SameShape start r) (hs : SameShape start s)
    (h : r.contents = s.contents) : r = s := by
  have hextent : r.extent = s.extent := hr.extent_eq.trans hs.extent_eq.symm
  have hlength : r.length = s.length := hr.length_eq.trans hs.length_eq.symm
  obtain ⟨rbytes, rlength⟩ := r
  obtain ⟨sbytes, slength⟩ := s
  obtain rfl : rlength = slength := hlength
  cases rbytes <;> cases sbytes
  · rfl
  · cases hextent
  · cases hextent
  · exact congrArg (Region.mk · rlength) (congrArg some h)

theorem write (hb : r.Backed) (h : r.InReach o) (u : Uuid) : SameShape r (r.write o u) :=
  ⟨hb.write h u, extent_write h u, rfl, length_contents_write h hb u⟩

/-- **One call** keeps the shape. -/
theorem access (hb : r.Backed) (a : Access) : SameShape r (r.access a).1 := by
  rw [access_eq hb, Access.outcome]
  cases hrefusal : refusal? r.extent a.offset with
  | some fault => exact refl hb
  | none =>
    have hreach : r.InReach a.offset := inReach_iff.mpr hrefusal
    dsimp only
    cases a.effect (r.read a.offset) with
    | error fault => exact refl hb
    | ok result => exact write hb hreach result.1

/-- **Any run of calls** keeps the shape. -/
theorem run (hb : r.Backed) (calls : List Access) : SameShape r (r.run calls).1 := by
  induction calls generalizing r with
  | nil => exact refl hb
  | cons a rest ih => exact (access hb a).trans (ih (access hb a).backed)

end SameShape

end Region

/-! ### Stores -/

/-- A **store** of an identifier at an offset. -/
structure Store where
  /-- The offset. -/
  offset : Int64
  /-- The identifier. -/
  uuid : Uuid
deriving DecidableEq, Repr

namespace Store

/-- The call that a store is. -/
def access (s : Store) : Access :=
  .encode s.offset s.uuid

/-- The byte that a store has for an index. -/
def byte? (s : Store) (k : Nat) : Option UInt8 :=
  s.uuid.toBytes[k - s.offset.toNatClampNeg]?

/-- A store **writes** an index of a region if it succeeds there and its window covers the index. -/
structure Writes (s : Store) (r : Region) (k : Nat) : Prop where
  check_eq_ok : r.check s.offset = .ok ()
  le : s.offset.toInt ≤ k
  lt : (k : Int) < s.offset.toInt + 16

end Store

namespace Region

variable {start r : Region} {s t : Store} {stores after : List Store} {k : Nat}

/-- The region after some stores, and the replies. -/
def runStores (r : Region) (stores : List Store) : Region × List Reply :=
  r.run (stores.map Store.access)

theorem SameShape.runStores (hb : r.Backed) (stores : List Store) :
    SameShape r (r.runStores stores).1 :=
  .run hb _

/-- In regions of the same shape a store writes the same indices. -/
theorem SameShape.writes_iff (h : SameShape start r) : s.Writes r k ↔ s.Writes start k := by
  have hcheck := h.check_eq s.offset
  exact ⟨fun hs => ⟨hcheck ▸ hs.check_eq_ok, hs.le, hs.lt⟩,
    fun hs => ⟨hcheck.symm ▸ hs.check_eq_ok, hs.le, hs.lt⟩⟩

/-- A store succeeds exactly if its offset passes the check, and is all or nothing. -/
theorem access_store (r : Region) (s : Store) :
    r.access s.access =
      match r.check s.offset with
      | .ok _ => (r.write s.offset s.uuid, .ok none)
      | .error fault => (r, .error fault) := by
  rw [Store.access, access, encode]
  cases r.check s.offset <;> rfl

/-- The window of a store that writes, in the natural numbers. -/
theorem writes_iff :
    s.Writes r k ↔ r.InReach s.offset ∧
      s.offset.toNatClampNeg ≤ k ∧ k < s.offset.toNatClampNeg + Uuid.size := by
  have hoffset : s.offset.toNatClampNeg = s.offset.toInt.toNat := (Int64.toNat_toInt _).symm
  rw [hoffset, Uuid.size]
  constructor
  · intro h
    have hreach : r.InReach s.offset := check_eq_ok_iff.mp h.check_eq_ok
    have hnonneg := hreach.nonneg
    have hle := h.le
    have hlt := h.lt
    exact ⟨hreach, by omega, by omega⟩
  · rintro ⟨hreach, hle, hlt⟩
    have hnonneg := hreach.nonneg
    exact ⟨check_eq_ok_iff.mpr hreach, by omega, by omega⟩

/-- A store puts its bytes where it writes. -/
theorem getElem?_contents_access_of_writes (hb : r.Backed) (h : s.Writes r k) :
    (r.access s.access).1.contents[k]? = s.byte? k := by
  obtain ⟨hreach, hle, hlt⟩ := writes_iff.mp h
  obtain ⟨i, rfl⟩ := Nat.exists_eq_add_of_le hle
  rw [access_store, h.check_eq_ok, Store.byte?, Nat.add_sub_cancel_left]
  exact getElem?_contents_write_of_lt hreach hb s.uuid (Nat.add_lt_add_iff_left.mp hlt)

/-- A store leaves alone what it does not write. -/
theorem getElem?_contents_access_of_not_writes (hb : r.Backed) (h : ¬ s.Writes r k) :
    (r.access s.access).1.contents[k]? = r.contents[k]? := by
  rw [access_store]
  cases hcheck : r.check s.offset with
  | error fault => rfl
  | ok _ =>
    have hreach : r.InReach s.offset := check_eq_ok_iff.mp hcheck
    rw [writes_iff, and_iff_right hreach] at h
    exact getElem?_contents_write hreach hb s.uuid (by omega)

/-- **Each store answers for itself**: the replies are those that the region at the start gives. -/
theorem SameShape.snd_runStores (h : SameShape start r) (stores : List Store) :
    (r.runStores stores).2 = stores.map fun s => (start.check s.offset).map fun _ => none := by
  induction stores generalizing r with
  | nil => rfl
  | cons s rest ih =>
    have hreply : (r.access s.access).2 = (start.check s.offset).map fun _ => none := by
      rw [access_store, h.check_eq]
      cases start.check s.offset <;> rfl
    exact List.cons_eq_cons.mpr ⟨hreply, ih (h.trans (SameShape.access h.backed s.access))⟩

/-- **Frame**: what no store of a run writes stays. -/
theorem getElem?_contents_runStores_of_forall (hb : r.Backed) (h : ∀ s ∈ stores, ¬ s.Writes r k) :
    (r.runStores stores).1.contents[k]? = r.contents[k]? := by
  induction stores generalizing r with
  | nil => rfl
  | cons s rest ih =>
    have hshape := SameShape.access hb s.access
    have hrest : ∀ t ∈ rest, ¬ t.Writes (r.access s.access).1 k := fun t ht hwrites =>
      h t (List.mem_cons_of_mem s ht) (hshape.writes_iff.mp hwrites)
    exact (ih hshape.backed hrest).trans
      (getElem?_contents_access_of_not_writes hb (h s List.mem_cons_self))

/-- **The last store stands**: a byte is what the last store put there that writes it. -/
theorem getElem?_contents_runStores_of_last (hb : r.Backed) (before : List Store)
    (hs : s.Writes r k) (hafter : ∀ t ∈ after, ¬ t.Writes r k) :
    (r.runStores (before ++ s :: after)).1.contents[k]? = s.byte? k := by
  have hbefore : SameShape r (r.runStores before).1 := .runStores hb before
  have hstore := SameShape.access hbefore.backed s.access
  have hunwritten : ∀ t ∈ after,
      ¬ t.Writes ((r.runStores before).1.access s.access).1 k := fun t ht hwrites =>
    hafter t ht ((hbefore.trans hstore).writes_iff.mp hwrites)
  rw [runStores, List.map_append, run, Access.fst_run_append]
  exact (getElem?_contents_runStores_of_forall hstore.backed hunwritten).trans
    (getElem?_contents_access_of_writes hbefore.backed (hbefore.writes_iff.mpr hs))

/-- **Order matters where stores disagree**: two stores may be swapped exactly if they have the same
byte for each index that both of them write. -/
theorem runStores_swap_iff (hb : r.Backed) :
    (r.runStores [s, t]).1 = (r.runStores [t, s]).1 ↔
      ∀ k, s.Writes r k → t.Writes r k → s.byte? k = t.byte? k := by
  -- in either order the second store stands where it writes
  have hsecond (s t : Store) {k : Nat} (ht : t.Writes r k) :
      (r.runStores [s, t]).1.contents[k]? = t.byte? k := by
    have hafter : ∀ x ∈ ([] : List Store), ¬ x.Writes r k := List.forall_mem_nil _
    exact getElem?_contents_runStores_of_last hb [s] ht hafter
  -- and the first one elsewhere
  have hfirst (s t : Store) {k : Nat} (hs : s.Writes r k) (ht : ¬ t.Writes r k) :
      (r.runStores [s, t]).1.contents[k]? = s.byte? k := by
    have hafter : ∀ x ∈ [t], ¬ x.Writes r k := List.forall_mem_singleton.mpr ht
    exact getElem?_contents_runStores_of_last hb [] hs hafter
  have hnone (s t : Store) {k : Nat} (hs : ¬ s.Writes r k) (ht : ¬ t.Writes r k) :
      (r.runStores [s, t]).1.contents[k]? = r.contents[k]? := by
    have hwrites : ∀ x ∈ [s, t], ¬ x.Writes r k := List.forall_mem_cons.mpr
      ⟨hs, List.forall_mem_singleton.mpr ht⟩
    exact getElem?_contents_runStores_of_forall hb hwrites
  constructor
  · intro hswap k hs ht
    rw [← hsecond t s hs, ← hsecond s t ht, hswap]
  · intro hagree
    refine (SameShape.runStores hb _).eq_of_contents (.runStores hb _) ?_
    refine List.ext_getElem? fun k => ?_
    by_cases hs : s.Writes r k <;> by_cases ht : t.Writes r k
    · rw [hsecond s t ht, hsecond t s hs, hagree k hs ht]
    · rw [hfirst s t hs ht, hsecond t s hs]
    · rw [hsecond s t ht, hfirst t s ht hs]
    · rw [hnone s t hs ht, hnone t s ht hs]

/-- Windows sixteen or more apart have no index in common on which they could disagree. -/
theorem byte?_eq_of_apart (h : 16 ≤ (s.offset.toInt - t.offset.toInt).natAbs) (hs : s.Writes r k)
    (ht : t.Writes r k) : s.byte? k = t.byte? k := by
  have hsle := hs.le
  have hslt := hs.lt
  have htle := ht.le
  have htlt := ht.lt
  omega

/-- A store has a byte for each index that it writes. -/
theorem exists_byte?_eq (h : s.Writes r k) : ∃ b, s.byte? k = some b := by
  obtain ⟨-, hle, hlt⟩ := writes_iff.mp h
  exact ⟨_, List.getElem?_eq_getElem (by rw [Uuid.length_toBytes]; omega)⟩

/-! ### Together -/

/-- **The last store wins.** Run any stores on a region. Each is answered as the check of its offset
is on the region at the start; the length and the number of bytes stay; at an index that some store
writes stands the byte of the last one, and all other bytes stay. So what has been stored is read
back; storing what has been read changes nothing; and two stores may be swapped exactly if their
windows do not overlap or their bytes agree on the overlap. -/
theorem last_store_wins {r : Region} (hb : r.Backed) :
    (∀ stores : List Store,
      (r.runStores stores).2 = stores.map (fun s => (r.check s.offset).map fun _ => none) ∧
        (r.runStores stores).1.length = r.length ∧
        (r.runStores stores).1.contents.length = r.contents.length ∧
        (∀ before s after k, stores = before ++ s :: after → s.Writes r k →
          (∀ t ∈ after, ¬ t.Writes r k) →
            ∃ b, s.byte? k = some b ∧ (r.runStores stores).1.contents[k]? = some b) ∧
        ∀ k, (∀ s ∈ stores, ¬ s.Writes r k) →
          (r.runStores stores).1.contents[k]? = r.contents[k]?) ∧
    (∀ o u, r.check o = .ok () → ∃ next, r.encode o u = .ok next ∧ next.decode o = .ok u) ∧
    (∀ o, r.check o = .ok () → ∃ u, r.decode o = .ok u ∧ r.encode o u = .ok r) ∧
    ∀ s t : Store,
      (r.runStores [s, t]).1 = (r.runStores [t, s]).1 ↔
        16 ≤ (s.offset.toInt - t.offset.toInt).natAbs ∨
          ∀ k, s.Writes r k → t.Writes r k → s.byte? k = t.byte? k := by
  refine ⟨fun stores => ?_, fun o u hcheck => ?_, fun o hcheck => ?_, fun s t => ?_⟩
  · have hshape : SameShape r (r.runStores stores).1 := .runStores hb stores
    refine ⟨(SameShape.refl hb).snd_runStores stores, hshape.length_eq,
      hshape.length_contents_eq, ?_, fun k => getElem?_contents_runStores_of_forall hb⟩
    rintro before s after k rfl hs hafter
    obtain ⟨b, hbyte⟩ := exists_byte?_eq hs
    exact ⟨b, hbyte, (getElem?_contents_runStores_of_last hb before hs hafter).trans hbyte⟩
  · have hreach : r.InReach o := check_eq_ok_iff.mp hcheck
    exact ⟨r.write o u, encode_of_inReach hreach u, decode_write_self hreach hb u⟩
  · have hreach : r.InReach o := check_eq_ok_iff.mp hcheck
    refine ⟨r.read o, decode_of_inReach hreach, ?_⟩
    rw [encode_of_inReach hreach, write_read hreach hb]
  · rw [runStores_swap_iff hb]
    exact ⟨.inr, fun h => h.elim (fun hapart _ => byte?_eq_of_apart hapart) id⟩

/-- Stores into twenty-four bytes, two of which overlap and one of which is refused; and the two
that overlap, which have different bytes in common. -/
theorem last_store_wins_of_overlap :
    let r := Region.ofBytes (List.replicate 24 0xAB)
    let s : Store := ⟨0, ⟨1, 2⟩⟩
    let t : Store := ⟨5, ⟨3, 4⟩⟩
    let far : Store := ⟨9, ⟨5, 6⟩⟩
    let last := r.runStores [s, t, far]
    r.Backed ∧
      last.2 = [.ok none, .ok none, .error (.noRoom 9 24)] ∧
      (s.Writes r 3 ∧ (∀ x ∈ [t, far], ¬ x.Writes r 3) ∧ last.1.contents[3]? = some 0) ∧
      (t.Writes r 12 ∧ (∀ x ∈ [far], ¬ x.Writes r 12) ∧ last.1.contents[12]? = some 3) ∧
      ((∀ x ∈ [s, t, far], ¬ x.Writes r 22) ∧ last.1.contents[22]? = some 0xAB) ∧
      r.check 5 = .ok () ∧ (∃ next, r.encode 5 ⟨3, 4⟩ = .ok next ∧ next.decode 5 = .ok ⟨3, 4⟩) ∧
      (r.runStores [s, t]).1 ≠ (r.runStores [t, s]).1 := by
  intro r s t far last
  have hb : r.Backed := backed_ofBytes _
  obtain ⟨hruns, hreads, -, hswaps⟩ := last_store_wins hb
  obtain ⟨hreplies, -, -, hlast, hkept⟩ := hruns [s, t, far]
  have hfar (k : Nat) : ¬ far.Writes r k := fun h => absurd h.check_eq_ok (by decide)
  have hthree : s.Writes r 3 := ⟨by decide, by decide, by decide⟩
  have hthreeAfter : ∀ x ∈ [t, far], ¬ x.Writes r 3 := by
    rw [List.forall_mem_cons, List.forall_mem_singleton]
    exact ⟨fun h => absurd h.le (by decide), hfar 3⟩
  have htwelve : t.Writes r 12 := ⟨by decide, by decide, by decide⟩
  have htwelveAfter : ∀ x ∈ [far], ¬ x.Writes r 12 := by
    rw [List.forall_mem_singleton]
    exact hfar 12
  have hbeyond : ∀ x ∈ [s, t, far], ¬ x.Writes r 22 := by
    rw [List.forall_mem_cons, List.forall_mem_cons, List.forall_mem_singleton]
    exact ⟨fun h => absurd h.lt (by decide), fun h => absurd h.lt (by decide), hfar 22⟩
  obtain ⟨b, hb3, hlast3⟩ := hlast [] s [t, far] 3 rfl hthree hthreeAfter
  obtain ⟨c, hc12, hlast12⟩ := hlast [s] t [far] 12 rfl htwelve htwelveAfter
  have hfive : r.check 5 = .ok () := by decide
  refine ⟨hb, hreplies.trans (by decide), ⟨hthree, hthreeAfter, hlast3.trans ?_⟩,
    ⟨htwelve, htwelveAfter, hlast12.trans ?_⟩, ⟨hbeyond, (hkept 22 hbeyond).trans (by decide)⟩,
    hfive, hreads 5 ⟨3, 4⟩ hfive, fun hswap => ?_⟩
  · exact hb3.symm.trans (by decide)
  · exact hc12.symm.trans (by decide)
  · -- the byte seven is one of the first store and zero of the second
    obtain hapart | hagree := (hswaps s t).mp hswap
    · exact absurd hapart (by decide)
    · have hseven := hagree 7 ⟨by decide, by decide, by decide⟩ ⟨by decide, by decide, by decide⟩
      exact absurd hseven (by decide)

end Region

end UniqueId
