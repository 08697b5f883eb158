import Registrar.Proofs.Frames

/-!
# Constants that are asked for

* `Interning.Fills op fill` : `fill` does in a pool without a limit what `op` does where there is room. `fills_index` : a
  request fills the pool just so, or else leaves it full;
* `ConstantRequest.Resolves` : the index refers to what was asked for. `Resolves.extends` : it does in every larger pool;
* `ConstantPool.after` : the pool that requests leave, whether they succeed or fail. `extends_after` : it has only grown;
* `ConstantRequest.Answered` : what comes of a request. `answered_after` : that is so after any others.
-/

namespace Registrar

namespace ConstantPool

/-! ## Pools without a limit -/

/-- A computation that may add to a pool without a limit. -/
abbrev Filling := StateM ConstantPool

/-- The index of the first entry that satisfies `same`, or of `entry`, for which there is always room. -/
def findOrAppend (same : Constant → Bool) (entry : Constant) : Filling UInt16 := fun pool =>
  match pool.entries.findIdx? same with
  | some index => (UInt16.ofNat index, pool)
  | none => (UInt16.ofNat pool.entries.size, ⟨pool.entries.push entry⟩)

namespace Interning

variable {α β : Type}

/-- The pool that a computation leaves, also where it fails. -/
def poolAfter (op : Interning α) (pool : ConstantPool) : ConstantPool :=
  match op pool with
  | .ok _ pool => pool
  | .error _ pool => pool

/-- The computation `op` does what `fill` does in a pool without a limit, if there is room for what `fill` adds. Else it
fails once the pool is full. -/
structure Fills (op : Interning α) (fill : Filling α) : Prop where
  grows : ∀ P, P.entries.size ≤ (fill P).2.entries.size
  fits : ∀ P, (fill P).2.entries.size ≤ maxEntries → op P = .ok (fill P).1 (fill P).2
  full : ∀ P, P.entries.size ≤ maxEntries → maxEntries < (fill P).2.entries.size →
    ∃ Q, op P = .error .full Q ∧ Extends P Q ∧ Q.entries.size = maxEntries

theorem Fills.bind {op : Interning α} {fill : Filling α} {f : α → Interning β} {g : α → Filling β} (h : op.Fills fill)
    (hstable : op.Stable) (hf : ∀ a, (f a).Fills (g a)) : Fills (op >>= f) (fill >>= g) where
  grows P := Nat.le_trans (h.grows P) ((hf _).grows _)
  fits P hroom := by
    have hfirst : (fill P).2.entries.size ≤ maxEntries := Nat.le_trans ((hf _).grows _) hroom
    exact EStateM.bind_eq_ok_iff.2 ⟨_, _, h.fits P hfirst, (hf _).fits _ hroom⟩
  full P hP hroom := by
    change ∃ Q, EStateM.bind op f P = .error .full Q ∧ _
    unfold EStateM.bind
    by_cases hfirst : (fill P).2.entries.size ≤ maxEntries
    · have hok := h.fits P hfirst
      obtain ⟨Q, hQ, hext, hfull⟩ := (hf _).full _ hfirst hroom
      rw [hok]
      exact ⟨Q, hQ, (hstable _ _ _ hok).1.trans hext, hfull⟩
    · obtain ⟨Q, hQ, hext, hfull⟩ := h.full P hP (Nat.not_le.1 hfirst)
      rw [hQ]
      exact ⟨Q, rfl, hext, hfull⟩

theorem fills_findOrPush (same : Constant → Bool) (entry : Constant) :
    Fills (findOrPush same entry) (findOrAppend same entry) where
  grows P := by
    unfold findOrAppend
    split
    · exact Nat.le_refl _
    · rw [Array.size_push]
      exact Nat.le_succ _
  fits P hroom := by
    unfold findOrAppend at hroom ⊢
    unfold findOrPush
    cases hindex : P.entries.findIdx? same with
    | some index => rfl
    | none =>
      rw [hindex] at hroom
      dsimp only at hroom ⊢
      rw [Array.size_push] at hroom
      rw [push, if_pos (Nat.lt_of_succ_le hroom)]
  full P hP hroom := by
    unfold findOrAppend at hroom
    unfold findOrPush
    cases hindex : P.entries.findIdx? same with
    | some index =>
      rw [hindex] at hroom
      exact absurd hP (Nat.not_le.2 hroom)
    | none =>
      rw [hindex] at hroom
      dsimp only at hroom ⊢
      rw [Array.size_push] at hroom
      rw [push, if_neg (Nat.not_lt.2 (Nat.le_of_lt_succ hroom))]
      exact ⟨P, rfl, .refl, Nat.le_antisymm hP (Nat.le_of_lt_succ hroom)⟩

/-- A computation that succeeds has filled the pool, and there was room for that. -/
theorem Fills.eq_of_ok {op : Interning α} {fill : Filling α} (h : op.Fills fill) {P Q : ConstantPool} {a : α}
    (hP : P.entries.size ≤ maxEntries) (hop : op P = .ok a Q) : (a, Q) = fill P ∧ Q.entries.size ≤ maxEntries := by
  by_cases hroom : (fill P).2.entries.size ≤ maxEntries
  · have hfits := h.fits P hroom
    rw [hop, EStateM.Result.ok.injEq] at hfits
    obtain ⟨rfl, rfl⟩ := hfits
    exact ⟨rfl, hroom⟩
  · obtain ⟨R, hR, -, -⟩ := h.full P hP (Nat.not_le.1 hroom)
    rw [hop] at hR
    cases hR

theorem Fills.full_of_error {op : Interning α} {fill : Filling α} (h : op.Fills fill) {P Q : ConstantPool}
    {e : PoolError} (hP : P.entries.size ≤ maxEntries) (hop : op P = .error e Q) :
    e = .full ∧ Extends P Q ∧ Q.entries.size = maxEntries := by
  by_cases hroom : (fill P).2.entries.size ≤ maxEntries
  · rw [h.fits P hroom] at hop
    cases hop
  · obtain ⟨R, hR, hext, hfull⟩ := h.full P hP (Nat.not_le.1 hroom)
    rw [hop, EStateM.Result.error.injEq] at hR
    obtain ⟨rfl, rfl⟩ := hR
    exact ⟨rfl, hext, hfull⟩

theorem Fills.extends_poolAfter {op : Interning α} {fill : Filling α} (h : op.Fills fill) (hstable : op.Stable)
    {P : ConstantPool} (hP : P.entries.size ≤ maxEntries) : Extends P (op.poolAfter P) := by
  unfold poolAfter
  cases hop : op P with
  | ok a Q => exact (hstable _ _ _ hop).1
  | error e Q => exact (h.full_of_error hP hop).2.1

end Interning

end ConstantPool

namespace ConstantRequest

open ConstantPool (Extends Filling findOrAppend maxEntries)
open ConstantPool.Interning

/-! ## Requests without a limit -/

/-- The index of a text, in a pool without a limit. -/
def fillText (text : String) : Filling UInt16 := findOrAppend (ConstantPool.isText text) (.ofText text)

/-- The index of an entry, in a pool without a limit. -/
def fillEntry (entry : Constant) : Filling UInt16 := findOrAppend (· == entry) entry

/-- The index of a class, in a pool without a limit. -/
def fillClass (name : String) : Filling UInt16 := do
  let name ← fillText name
  fillEntry (.classRef name)

/-- The index of a name with a descriptor, in a pool without a limit. -/
def fillNameAndType (name descriptor : String) : Filling UInt16 := do
  let name ← fillText name
  let descriptor ← fillText descriptor
  fillEntry (.nameAndType name descriptor)

/-- The index of a constant, in a pool without a limit. -/
def fill : ConstantRequest → Filling UInt16
  | .text value => fillText value
  | .classRef name => fillClass name
  | .nameAndType name descriptor => fillNameAndType name descriptor
  | .methodRef owner name descriptor interface => do
    let owner ← fillClass owner
    let member ← fillNameAndType name descriptor
    fillEntry (if interface then .interfaceMethodRef owner member else .methodRef owner member)

/-- How many entries have to be added to a pool for the constant. -/
def lacking (request : ConstantRequest) (pool : ConstantPool) : Nat :=
  (request.fill pool).2.entries.size - pool.entries.size

theorem fills_classIndex (name : String) : (ConstantPool.classIndex name).Fills (fillClass name) :=
  (fills_findOrPush _ _).bind (stable_utf8Index name) fun _ => fills_findOrPush _ _

theorem fills_nameAndTypeIndex (name descriptor : String) :
    (ConstantPool.nameAndTypeIndex name descriptor).Fills (fillNameAndType name descriptor) :=
  (fills_findOrPush _ _).bind (stable_utf8Index name) fun _ =>
    (fills_findOrPush _ _).bind (stable_utf8Index descriptor) fun _ => fills_findOrPush _ _

theorem fills_index (request : ConstantRequest) : request.index.Fills request.fill := by
  cases request with
  | text value => exact fills_findOrPush _ _
  | classRef name => exact fills_classIndex name
  | nameAndType name descriptor => exact fills_nameAndTypeIndex name descriptor
  | methodRef owner name descriptor interface =>
    exact (fills_classIndex owner).bind (stable_classIndex owner) fun _ =>
      (fills_nameAndTypeIndex name descriptor).bind (stable_nameAndTypeIndex name descriptor) fun _ =>
        fills_findOrPush _ _

theorem size_fill (request : ConstantRequest) (pool : ConstantPool) :
    (request.fill pool).2.entries.size = pool.entries.size + request.lacking pool := by
  have hgrows := request.fills_index.grows pool
  unfold lacking
  omega

/-! ## What an index refers to -/

/-- The index refers to the constant. -/
def Resolves (pool : ConstantPool) (index : UInt16) : ConstantRequest → Prop
  | .text value => pool.utf8 index = .ok value
  | .classRef name => pool.className index = .ok name
  | .nameAndType name descriptor => pool.nameAndType? index = some (name, descriptor)
  | .methodRef owner name descriptor interface => pool.methodReference? index = some ⟨owner, name, descriptor, interface⟩

variable {request : ConstantRequest} {P Q : ConstantPool} {i : UInt16}

theorem Resolves.extends (hext : Extends P Q) (h : request.Resolves P i) : request.Resolves Q i := by
  cases request with
  | text value => exact hext.utf8 h
  | classRef name => exact hext.className h
  | nameAndType name descriptor => exact hext.nameAndType? h
  | methodRef owner name descriptor interface => exact hext.methodReference? h

theorem resolves_of_index (h : request.index P = .ok i Q) (hP : P.entries.size ≤ maxEntries) : request.Resolves Q i := by
  cases request with
  | text value => exact ConstantPool.utf8_of_utf8Index h hP
  | classRef name => exact ConstantPool.className_of_classIndex h hP
  | nameAndType name descriptor => exact ConstantPool.nameAndType?_of_nameAndTypeIndex h hP
  | methodRef owner name descriptor interface => exact ConstantPool.methodReference?_of_methodRefIndex h hP

/-- What an index refers to is no unusable entry. -/
theorem Resolves.exists_entry (h : request.Resolves P i) : ∃ e, P.entries[i.toNat]? = some e ∧ e ≠ .unusable := by
  cases request with
  | text value =>
    obtain ⟨e, he, htext⟩ := ConstantPool.utf8_eq_ok_iff.1 h
    refine ⟨e, he, ?_⟩
    rintro rfl
    cases htext
  | classRef name =>
    change P.className i = .ok name at h
    unfold ConstantPool.className at h
    split at h
    · next hget => exact ⟨_, ConstantPool.get_eq_ok_iff.1 hget, Constant.noConfusion⟩
    · cases h
    · cases h
  | nameAndType name descriptor =>
    change P.nameAndType? i = some (name, descriptor) at h
    unfold ConstantPool.nameAndType? at h
    split at h
    · next hget => exact ⟨_, ConstantPool.get_eq_ok_iff.1 hget, Constant.noConfusion⟩
    · cases h
  | methodRef owner name descriptor interface =>
    change P.methodReference? i = some ⟨owner, name, descriptor, interface⟩ at h
    unfold ConstantPool.methodReference? at h
    split at h
    · next hget => exact ⟨_, ConstantPool.get_eq_ok_iff.1 hget, Constant.noConfusion⟩
    · next hget => exact ⟨_, ConstantPool.get_eq_ok_iff.1 hget, Constant.noConfusion⟩
    · cases h

/-- The first entry of a pool that is read is unusable, so that no index is 0. -/
theorem Resolves.bounds (h : request.Resolves P i) (hfirst : P.entries[0]? = some .unusable)
    (hP : P.entries.size ≤ maxEntries) : 1 ≤ i.toNat ∧ i.toNat ≤ 65534 := by
  obtain ⟨e, he, hne⟩ := h.exists_entry
  obtain ⟨hlt, -⟩ := Array.getElem?_eq_some_iff.1 he
  constructor
  · by_contra hzero
    rw [Nat.lt_one_iff.1 (Nat.not_le.1 hzero), hfirst] at he
    exact hne (Option.some.inj he).symm
  · exact Nat.le_of_lt_succ (Nat.lt_of_lt_of_le hlt hP)

end ConstantRequest

/-! ## Histories -/

namespace ConstantPool

/-- The pool that some requests leave, one after the other. -/
def after (pool : ConstantPool) (requests : List ConstantRequest) : ConstantPool :=
  requests.foldl (fun pool request => request.index.poolAfter pool) pool

theorem extends_after {P : ConstantPool} (requests : List ConstantRequest) (hP : P.entries.size ≤ maxEntries) :
    Extends P (P.after requests) := by
  induction requests generalizing P with
  | nil => exact .refl
  | cons request requests ih =>
    have hext := request.fills_index.extends_poolAfter request.stable_index hP
    exact hext.trans (ih (hext.size_le hP))

theorem getElem?_zero_of_decode {pool : ConstantPool} {input rest : List UInt8} (h : decode input = .ok (pool, rest)) :
    pool.entries[0]? = some .unusable := by
  obtain ⟨_, ⟨hstorable, -⟩, -⟩ := reads_decode.sound h
  obtain ⟨cs, -, hentries⟩ := hstorable.readable
  rw [← Array.getElem?_toList, hentries, List.getElem?_cons_zero]

end ConstantPool

/-- What comes of a request. The entries of the pool stay. If there is room for what has to be added, the request gives
an index that refers to the constant, and goes on to do so; the same request gives it again, and adds nothing. If there
is not, the pool is full in the end. -/
structure ConstantRequest.Answered (request : ConstantRequest) (pool : ConstantPool) : Prop where
  size : pool.entries.size ≤ 65535
  kept : pool.entries.toList <+: (request.index.poolAfter pool).entries.toList
  succeeds_iff : (∃ index pool', request.index pool = .ok index pool') ↔
    pool.entries.size + request.lacking pool ≤ 65535
  added : ∀ index pool', request.index pool = .ok index pool' →
    pool'.entries.size = pool.entries.size + request.lacking pool
  bounds : ∀ index pool', request.index pool = .ok index pool' → 1 ≤ index.toNat ∧ index.toNat ≤ 65534
  lasts : ∀ index pool', request.index pool = .ok index pool' → ∀ later, request.Resolves (pool'.after later) index ∧
    request.index (pool'.after later) = .ok index (pool'.after later)
  full : ∀ error pool', request.index pool = .error error pool' → error = .full ∧ pool'.entries.size = 65535

namespace ConstantPool

theorem answered {P : ConstantPool} (hfirst : P.entries[0]? = some .unusable) (hP : P.entries.size ≤ maxEntries)
    (request : ConstantRequest) : request.Answered P where
  size := hP
  kept := (request.fills_index.extends_poolAfter request.stable_index hP).isPrefix
  succeeds_iff := by
    rw [← request.size_fill]
    constructor
    · rintro ⟨index, Q, hindex⟩
      obtain ⟨hfill, hQ⟩ := request.fills_index.eq_of_ok hP hindex
      rw [← hfill]
      exact hQ
    · intro hroom
      exact ⟨_, _, request.fills_index.fits P hroom⟩
  added index Q hindex := by
    obtain ⟨hfill, -⟩ := request.fills_index.eq_of_ok hP hindex
    rw [← request.size_fill, ← hfill]
  bounds index Q hindex := by
    have hext := (request.stable_index _ _ _ hindex).1
    exact (ConstantRequest.resolves_of_index hindex hP).bounds (hext.getElem? hfirst) (hext.size_le hP)
  lasts index Q hindex later := by
    obtain ⟨hext, hagain⟩ := request.stable_index _ _ _ hindex
    have hlater := extends_after later (hext.size_le hP)
    exact ⟨(ConstantRequest.resolves_of_index hindex hP).extends hlater, hagain _ hlater⟩
  full error Q hindex := by
    obtain ⟨herror, -, hfull⟩ := request.fills_index.full_of_error hP hindex
    exact ⟨herror, hfull⟩

/-- **Constants that are asked for.** Let any requests be made of a pool that is read, some of which may fail. The next
one is answered: it finds the constant or adds it, for good, as far as there is room. -/
theorem answered_after {pool : ConstantPool} {input rest : List UInt8} (h : decode input = .ok (pool, rest))
    (before : List ConstantRequest) (request : ConstantRequest) : request.Answered (pool.after before) := by
  have hsize := size_le_of_decode h
  have hext := extends_after before hsize
  exact answered (hext.getElem? (getElem?_zero_of_decode h)) (hext.size_le hsize) request

/-- A pool in which the text `A` stands twice, with a class that has the second one for its name and a wide constant. -/
def doubledPool : ConstantPool := ⟨#[.unusable, .ofText "A", .ofText "A", .long 7, .unusable, .classRef 2]⟩

theorem answered_after_doubled :
    decode doubledPool.encode = .ok (doubledPool, []) ∧
      ∃ index pool, (ConstantRequest.classRef "A").index (doubledPool.after [.methodRef "A" "m" "()V" true]) =
          .ok index pool ∧ 1 ≤ index.toNat ∧ index.toNat ≤ 65534 ∧
        pool.entries.size = (doubledPool.after [.methodRef "A" "m" "()V" true]).entries.size ∧
        (pool.after [.text "B", .classRef "B"]).className index = .ok "A" := by
  have hread : decode doubledPool.encode = .ok (doubledPool, []) := by decide +kernel
  obtain ⟨-, -, hsucceeds, hadded, hbounds, hlasts, -⟩ :=
    answered_after hread [.methodRef "A" "m" "()V" true] (.classRef "A")
  have hlacking : (ConstantRequest.classRef "A").lacking (doubledPool.after [.methodRef "A" "m" "()V" true]) = 0 := by
    decide +kernel
  have hsize : (doubledPool.after [.methodRef "A" "m" "()V" true]).entries.size ≤ 65535 := by decide +kernel
  obtain ⟨index, pool, hindex⟩ := hsucceeds.2 (by rw [hlacking]; exact hsize)
  obtain ⟨hpos, hle⟩ := hbounds index pool hindex
  have hsame := hadded index pool hindex
  rw [hlacking] at hsame
  exact ⟨hread, index, pool, hindex, hpos, hle, hsame, (hlasts index pool hindex [.text "B", .classRef "B"]).1⟩

end ConstantPool

end Registrar
