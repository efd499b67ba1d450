import ArrayCall.Memory
import ArrayCall.Proofs.Elements
import ArrayCall.Proofs.Results

/-!
# What memory holds

`Memory.Holds` says which bytes stand at an address and `Memory.Writable` that some may be written
there. Both look at one region only, so they survive whatever leaves that region alone. An element can be written
just where its bytes can (`Memory.write_ok_iff`), and is read back from there (`Memory.Writable.read_put`).

Scratch regions stand behind those of a call, and no two slots share one (`Memory.OwnScratch`).
Asking for scratch keeps that, and changes no other region (`Memory.scratch_spec`).

Memory only grows (`Memory.Grows`), so an address that can be read or written once can be so from then on.
-/

namespace ArrayCall

/-! ## Buffers -/

namespace Buffer

variable {b : Buffer} {start place length : Nat} {new : Bytes}

theorem length_slice (inside : start + length ≤ b.size) : (b.slice start length).length = length := by
  rw [slice_eq, List.length_take, List.length_drop, length_toList]
  omega

theorem slice_overwrite_self (inside : start + new.length ≤ b.size) :
    (b.overwrite start new).slice start new.length = new := by
  have front : (b.toList.take start).length = start := by
    rw [List.length_take, length_toList]
    omega
  rw [slice_eq, toList_overwrite inside, List.append_assoc, List.drop_left' front, List.take_left]

theorem getElem?_overwrite_of_outside (fits : start + new.length ≤ b.size)
    (outside : place < start ∨ start + new.length ≤ place) :
    (b.overwrite start new).toList[place]? = b.toList[place]? := by
  have size := b.length_toList
  rw [toList_overwrite fits]
  simp only [List.getElem?_append, List.length_append, List.length_take, List.getElem?_take, List.getElem?_drop]
  rcases outside with before | behind
  · rw [if_pos (by omega), if_pos (by omega), if_pos before]
  · rw [if_neg (by omega)]
    congr 1
    omega

theorem slice_overwrite_of_disjoint (inside : start + new.length ≤ b.size)
    (disjoint : place + length ≤ start ∨ start + new.length ≤ place) :
    (b.overwrite start new).slice place length = b.slice place length := by
  rw [slice_eq, slice_eq]
  apply List.ext_getElem?
  intro i
  simp only [List.getElem?_take, List.getElem?_drop]
  split
  next below => exact getElem?_overwrite_of_outside inside (by omega)
  next => rfl

theorem overwrite_ofList_append (front : Bytes) {rest new : Bytes} (room : new.length ≤ rest.length) :
    (ofList (front ++ rest)).overwrite front.length new =
      .ofList (front ++ new ++ rest.drop new.length) := by
  apply ext_toList
  rw [toList_overwrite (by simp; omega), toList_ofList, toList_ofList, List.take_left,
    ← List.drop_drop, List.drop_left]

end Buffer

namespace Memory

/-! ## Bytes at an address -/

/-- Bytes that stand in a region from an address on. -/
def Holds (m : Memory) (a : Addr) (bytes : Bytes) : Prop :=
  ∃ r, m.regions[a.region]? = some r ∧ 0 ≤ a.offset ∧ a.offset.toNat + bytes.length ≤ r.bytes.size ∧
    r.bytes.slice a.offset.toNat bytes.length = bytes

/-- So many bytes from an address on may be written. -/
def Writable (m : Memory) (a : Addr) (length : Nat) : Prop :=
  ∃ r, m.regions[a.region]? = some r ∧ r.access ≠ .shared ∧ 0 ≤ a.offset ∧
    a.offset.toNat + length ≤ r.bytes.size

variable {m m' m'' : Memory} {a b : Addr} {bytes new : Bytes} {length : Nat}

theorem Holds.congr (holds : m.Holds a bytes) (same : m'.regions[a.region]? = m.regions[a.region]?) :
    m'.Holds a bytes := by
  rwa [Holds, same]

theorem Writable.congr (writable : m.Writable a length) (same : m'.regions[a.region]? = m.regions[a.region]?) :
    m'.Writable a length := by
  rwa [Writable, same]

theorem Holds.readBytes_eq (holds : m.Holds a bytes) : m.readBytes a bytes.length = .ok bytes := by
  obtain ⟨r, found, least, inside, same⟩ := holds
  simp only [readBytes, locate, found, if_pos (And.intro least inside)]
  exact congrArg Except.ok same

theorem Writable.checkWrite_eq (writable : m.Writable a length) : m.checkWrite a length = .ok () := by
  obtain ⟨r, found, lent, least, inside⟩ := writable
  simp only [checkWrite, locate, found, if_pos (And.intro least inside)]
  exact if_neg lent

theorem writable_of_checkWrite_eq (checked : m.checkWrite a length = .ok ()) : m.Writable a length := by
  obtain ⟨⟨r, start⟩, located, access⟩ := bind_eq_ok_iff.mp checked
  rw [locate] at located
  split at located
  next => cases located
  next found =>
    split at located
    next inside =>
      cases located
      refine ⟨r, found, fun shared => ?_, inside⟩
      simp [shared] at access
    next => cases located

theorem getElem?_put_self (new : Bytes) :
    (m.put a new).regions[a.region]? =
      m.regions[a.region]?.map fun r => { r with bytes := r.bytes.overwrite a.offset.toNat new } := by
  simp [put, List.getElem?_modify_eq]

theorem getElem?_put_of_ne {i : Nat} (differs : i ≠ a.region) (new : Bytes) :
    (m.put a new).regions[i]? = m.regions[i]? := by
  simp [put, Ne.symm differs]

theorem Writable.holds_put (writable : m.Writable a new.length) : (m.put a new).Holds a new := by
  obtain ⟨r, found, lent, least, inside⟩ := writable
  refine ⟨_, by rw [getElem?_put_self, found, Option.map_some], least, ?_, ?_⟩
  · rwa [Buffer.size_overwrite]
  · exact Buffer.slice_overwrite_self inside

/-- What stands before or behind the bytes that are written stays. -/
theorem Holds.put_of_disjoint (holds : m.Holds b bytes) (writable : m.Writable a new.length)
    (disjoint : b.offset + bytes.length ≤ a.offset ∨ a.offset + new.length ≤ b.offset) :
    (m.put a new).Holds b bytes := by
  by_cases same : b.region = a.region
  · obtain ⟨r, found, least, inside, stands⟩ := holds
    obtain ⟨r', found', -, least', inside'⟩ := writable
    rw [same] at found
    obtain rfl := Option.some.inj (found.symm.trans found')
    refine ⟨_, by rw [same, getElem?_put_self, found, Option.map_some], least, ?_, ?_⟩
    · rwa [Buffer.size_overwrite]
    · rw [Buffer.slice_overwrite_of_disjoint inside' (by omega), stands]
  · exact holds.congr (getElem?_put_of_ne same new)

theorem Writable.put (writable : m.Writable b length) (a : Addr) (new : Bytes) : (m.put a new).Writable b length := by
  by_cases same : b.region = a.region
  · obtain ⟨r, found, lent, least, inside⟩ := writable
    have there : (m.put a new).regions[b.region]? =
        some { r with bytes := r.bytes.overwrite a.offset.toNat new } := by
      rw [same, getElem?_put_self, ← same, found, Option.map_some]
    exact ⟨_, there, lent, least, by rwa [Buffer.size_overwrite]⟩
  · exact writable.congr (getElem?_put_of_ne same new)

/-! ## Elements -/

variable {k : Kind} {value : Scalar}

theorem Holds.read_eq (holds : m.Holds a bytes) (length : bytes.length = k.size) :
    m.read k a = .ok (k.decode bytes) := by
  rw [read, ← length, holds.readBytes_eq]
  rfl

theorem Writable.writeBytes_eq (writable : m.Writable a new.length) : m.writeBytes a new = (.ok (), m.put a new) := by
  rw [writeBytes, writable.checkWrite_eq]

/-- Bytes that may not be written leave the memory as it is. -/
theorem writeBytes_eq_of_not_writable (forbidden : ¬m.Writable a new.length) :
    ∃ fault, m.writeBytes a new = (.error fault, m) := by
  rw [writeBytes]
  cases checked : m.checkWrite a new.length with
  | ok => exact absurd (writable_of_checkWrite_eq checked) forbidden
  | error fault => exact ⟨fault, rfl⟩

theorem Writable.write_eq (writable : m.Writable a k.size) (value : Scalar) :
    m.write k a value = (.ok (), m.put a (value.encode k)) := by
  rw [← length_encode k value] at writable
  exact writable.writeBytes_eq

/-- A value can be written just where its bytes can. -/
theorem write_ok_iff : (m.write k a value).1 = .ok () ↔ m.Writable a k.size := by
  constructor
  · intro written
    by_contra forbidden
    rw [← length_encode k value] at forbidden
    obtain ⟨fault, failed⟩ := writeBytes_eq_of_not_writable forbidden
    rw [write, failed] at written
    cases written
  · intro writable
    rw [writable.write_eq]

/-- A value that was written is read back as its conversion to the kind. -/
theorem Writable.read_put (writable : m.Writable a k.size) (value : Scalar) :
    (m.put a (value.encode k)).read k a = .ok (value.cast k) := by
  have length := length_encode k value
  have holds : (m.put a (value.encode k)).Holds a (value.encode k) := Writable.holds_put (length.symm ▸ writable)
  rw [holds.read_eq length, Kind.decode_encode]

/-! ## Scratch -/

/-- The region of a slot of a node, if scratch was asked for there. -/
def slotRegion? (m : Memory) (slot : Nat × Nat) : Option Nat := (m.slots.find? (·.1 == slot)).map (·.2)

/-- Scratch regions stand from number `base` on, and each slot has its own. -/
structure OwnScratch (m : Memory) (base : Nat) : Prop where
  base_le : base ≤ m.regions.length
  owned : ∀ slot region, m.slotRegion? slot = some region →
    base ≤ region ∧ ∃ bytes, m.regions[region]? = some ⟨.owned, bytes⟩
  distinct : ∀ slot slot' region, m.slotRegion? slot = some region → m.slotRegion? slot' = some region →
    slot = slot'

theorem ownScratch_of_slots_eq_nil {base : Nat} (none : m.slots = []) (least : base ≤ m.regions.length) :
    m.OwnScratch base where
  base_le := least
  owned slot region found := by simp [slotRegion?, none] at found
  distinct slot slot' region found := by simp [slotRegion?, none] at found

theorem OwnScratch.region_lt {base region : Nat} {slot : Nat × Nat} (own : m.OwnScratch base)
    (found : m.slotRegion? slot = some region) : region < m.regions.length := by
  obtain ⟨-, bytes, there⟩ := own.owned slot region found
  exact (List.getElem?_eq_some_iff.mp there).1

theorem OwnScratch.put {base : Nat} (own : m.OwnScratch base) (a : Addr) (new : Bytes) :
    (m.put a new).OwnScratch base where
  base_le := by simpa [Memory.put] using own.base_le
  owned slot region found := by
    obtain ⟨least, bytes, there⟩ := own.owned slot region found
    by_cases same : region = a.region
    · exact ⟨least, _, by rw [same, getElem?_put_self, ← same, there, Option.map_some]⟩
    · exact ⟨least, bytes, by rw [getElem?_put_of_ne same, there]⟩
  distinct := own.distinct

/-- What asking for the scratch region of a slot does to memory. -/
structure Reserves (m : Memory) (slot : Nat × Nat) (length region : Nat) (m' : Memory) : Prop where
  slotRegion?_eq : m'.slotRegion? slot = some region
  writable : m'.Writable ⟨region, 0⟩ length
  kept : ∀ other r, m.slotRegion? other = some r → m'.slotRegion? other = some r
  frame : ∀ i, i ≠ region → m'.regions[i]? = m.regions[i]?

/-- A slot that has scratch already keeps its region, which may grow. -/
theorem OwnScratch.enlarge {base region : Nat} {slot : Nat × Nat} (own : m.OwnScratch base)
    (there : m.slotRegion? slot = some region) {enlarge : Region → Region}
    (grows : ∀ bytes, enlarge ⟨.owned, bytes⟩ = ⟨.owned, bytes.grow length⟩) :
    OwnScratch { m with regions := m.regions.modify region enlarge } base ∧
      m.Reserves slot length region { m with regions := m.regions.modify region enlarge } := by
  obtain ⟨least, bytes, owned⟩ := own.owned _ _ there
  have here : (m.regions.modify region enlarge)[region]? = some ⟨.owned, bytes.grow length⟩ := by
    rw [List.getElem?_modify_eq, owned, Option.map_eq_map, Option.map_some, grows]
  have frame : ∀ i, i ≠ region → (m.regions.modify region enlarge)[i]? = m.regions[i]? := by
    intro i differs
    simp [Ne.symm differs]
  have size := bytes.size_grow length
  constructor
  · refine ⟨by simpa using own.base_le, fun other r listed => ?_, own.distinct⟩
    obtain ⟨least, held⟩ := own.owned other r listed
    by_cases same : r = region
    · subst same
      exact ⟨least, _, here⟩
    · exact ⟨least, (frame r same).symm ▸ held⟩
  · refine ⟨there, ⟨_, here, by simp, Int.le_refl _, ?_⟩, fun _ _ listed => listed, frame⟩
    simp only [Int.toNat_zero]
    omega

/-- The memory with a region for a slot that has no scratch yet. -/
def addSlot (m : Memory) (slot : Nat × Nat) (length : Nat) : Memory :=
  ⟨m.regions ++ [⟨.owned, .zeros length⟩], m.slots ++ [(slot, m.regions.length)]⟩

/-- The new slot is found behind all others, which are found where they were. -/
theorem slotRegion?_addSlot (slot other : Nat × Nat) :
    (m.addSlot slot length).slotRegion? other =
      (m.slotRegion? other).or (if slot = other then some m.regions.length else none) := by
  rw [addSlot, slotRegion?, slotRegion?, List.find?_append, Option.map_or, List.find?_singleton]
  by_cases same : slot = other <;> simp [same]

theorem of_slotRegion?_addSlot {slot other : Nat × Nat} {r : Nat}
    (found : (m.addSlot slot length).slotRegion? other = some r) :
    m.slotRegion? other = some r ∨ other = slot ∧ r = m.regions.length := by
  rw [slotRegion?_addSlot] at found
  cases known : m.slotRegion? other with
  | some region => rw [known] at found; exact .inl found
  | none =>
    rw [known, Option.none_or] at found
    split at found
    next same => exact .inr ⟨same.symm, (Option.some.inj found).symm⟩
    next => cases found

theorem OwnScratch.addSlot {base : Nat} {slot : Nat × Nat} (own : m.OwnScratch base)
    (new : m.slotRegion? slot = none) (length : Nat) :
    (m.addSlot slot length).OwnScratch base ∧
      m.Reserves slot length m.regions.length (m.addSlot slot length) := by
  have here : (m.addSlot slot length).regions[m.regions.length]? = some ⟨.owned, .zeros length⟩ :=
    List.getElem?_concat_length
  have frame : ∀ i, i ≠ m.regions.length → (m.addSlot slot length).regions[i]? = m.regions[i]? := by
    intro i differs
    rcases Nat.lt_or_gt_of_ne differs with below | above
    · exact List.getElem?_append_left below
    · rw [List.getElem?_eq_none (Nat.le_of_lt above), List.getElem?_eq_none (by simp [Memory.addSlot]; omega)]
  constructor
  · refine ⟨?_, fun other r found => ?_, fun other other' r found found' => ?_⟩
    · have := own.base_le
      simp only [Memory.addSlot, List.length_append]
      omega
    · obtain known | ⟨-, rfl⟩ := of_slotRegion?_addSlot found
      · obtain ⟨least, held⟩ := own.owned other r known
        exact ⟨least, (frame r (Nat.ne_of_lt (own.region_lt known))).symm ▸ held⟩
      · exact ⟨own.base_le, _, here⟩
    · obtain known | ⟨rfl, rfl⟩ := of_slotRegion?_addSlot found <;>
        obtain known' | ⟨rfl, same⟩ := of_slotRegion?_addSlot found'
      · exact own.distinct _ _ _ known known'
      · exact absurd (own.region_lt known) (by omega)
      · exact absurd (own.region_lt known') (by omega)
      · rfl
  · refine ⟨by rw [slotRegion?_addSlot, new]; simp, ⟨_, here, by simp, Int.le_refl _, by simp⟩, ?_, frame⟩
    intro other r found
    rw [slotRegion?_addSlot, found, Option.some_or]

theorem scratch_spec {base : Nat} (own : m.OwnScratch base) (node slot length : Nat) :
    (m.scratch node slot length).2.OwnScratch base ∧
      m.Reserves (node, slot) length (m.scratch node slot length).1 (m.scratch node slot length).2 := by
  rw [scratch]
  split
  next key region found =>
    exact own.enlarge (by rw [slotRegion?, found, Option.map_some]) fun _ => rfl
  next new =>
    exact own.addSlot (by rw [slotRegion?, new, Option.map_none]) length

/-! ## Growing memory -/

/-- So many bytes stand from an address on. -/
def Readable (m : Memory) (a : Addr) (length : Nat) : Prop :=
  ∃ r, m.regions[a.region]? = some r ∧ 0 ≤ a.offset ∧ a.offset.toNat + length ≤ r.bytes.size

/-- Every region stays, with its access and with no fewer bytes. -/
def Grows (m m' : Memory) : Prop :=
  ∀ (i : Nat) (r : Region), m.regions[i]? = some r →
    ∃ r' : Region, m'.regions[i]? = some r' ∧ r'.access = r.access ∧ r.bytes.size ≤ r'.bytes.size

theorem Grows.refl (m : Memory) : m.Grows m := fun _ r found => ⟨r, found, rfl, Nat.le_refl _⟩

theorem Grows.trans (first : m.Grows m') (second : m'.Grows m'') : m.Grows m'' := by
  intro i r found
  obtain ⟨r', found', access', size'⟩ := first i r found
  obtain ⟨r'', found'', access'', size''⟩ := second i r' found'
  exact ⟨r'', found'', access''.trans access', size'.trans size''⟩

theorem Readable.of_grows (readable : m.Readable a length) (grows : m.Grows m') : m'.Readable a length := by
  obtain ⟨r, found, least, inside⟩ := readable
  obtain ⟨r', found', -, size⟩ := grows _ r found
  exact ⟨r', found', least, inside.trans size⟩

theorem Writable.of_grows (writable : m.Writable a length) (grows : m.Grows m') : m'.Writable a length := by
  obtain ⟨r, found, lent, least, inside⟩ := writable
  obtain ⟨r', found', access, size⟩ := grows _ r found
  exact ⟨r', found', access ▸ lent, least, inside.trans size⟩

theorem Writable.readable (writable : m.Writable a length) : m.Readable a length := by
  obtain ⟨r, found, -, least, inside⟩ := writable
  exact ⟨r, found, least, inside⟩

theorem Readable.exists_holds (readable : m.Readable a length) : ∃ bytes, bytes.length = length ∧ m.Holds a bytes := by
  obtain ⟨r, found, least, inside⟩ := readable
  have slice := Buffer.length_slice inside
  exact ⟨_, slice, r, found, least, by rwa [slice], by rw [slice]⟩

theorem grows_put (m : Memory) (a : Addr) (new : Bytes) : m.Grows (m.put a new) := by
  intro i r found
  by_cases same : i = a.region
  · subst same
    have there := m.getElem?_put_self (a := a) new
    rw [found, Option.map_some] at there
    exact ⟨_, there, rfl, Nat.le_of_eq (Buffer.size_overwrite ..).symm⟩
  · exact ⟨r, by rw [getElem?_put_of_ne same, found], rfl, Nat.le_refl _⟩

theorem grows_scratch (m : Memory) (node slot length : Nat) : m.Grows (m.scratch node slot length).2 := by
  intro i r found
  rw [scratch]
  split
  next key region listed =>
    by_cases same : region = i
    · subst same
      refine ⟨_, by rw [List.getElem?_modify_eq, found, Option.map_eq_map, Option.map_some], ?_⟩
      split
      · exact ⟨rfl, by rw [Buffer.size_grow]; omega⟩
      · exact ⟨rfl, Nat.le_refl _⟩
    · exact ⟨r, by simpa [same] using found, rfl, Nat.le_refl _⟩
  next =>
    have below : i < m.regions.length := (List.getElem?_eq_some_iff.mp found).1
    exact ⟨r, (List.getElem?_append_left below).trans found, rfl, Nat.le_refl _⟩

end Memory

end ArrayCall
