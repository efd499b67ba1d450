import ArrayCall.Proofs.ElementValues

/-!
# Histories of a memory

Regions are registered, scratch is asked for, and elements are written and read, in any order and any number of times
(`Memory.run`). Every request keeps the regions that there are, those that are shared as they are, and each slot's
scratch region (`Memory.Keeps`), so a whole history does. After any history the regions of a memory are separate stores
(`Memory.separate_run`): a write changes the bytes that it is made for and no others, and no two slots have one scratch
region, nor has a slot the region of an argument.
-/

namespace ArrayCall

namespace Buffer

theorem toList_grow (b : Buffer) (size : Nat) :
    (b.grow size).toList = b.toList ++ List.replicate (size - b.size) 0 := by
  simp [grow, toList, Buffer.size]

end Buffer

namespace Memory

/-! ## Requests -/

/-- What may be asked of a memory. -/
inductive Request where
  /-- A region for bytes that are there already -/
  | register (access : Access) (bytes : Buffer)
  | scratch (node slot length : Nat)
  | write (k : Kind) (a : Addr) (value : Scalar)
  /-- Bytes that are written as they are -/
  | store (a : Addr) (new : Bytes)
  | read (k : Kind) (a : Addr)

/-- The memory after a request -/
def after (m : Memory) : Request → Memory
  | .register access bytes => (m.add access bytes).2
  | .scratch node slot length => (m.scratch node slot length).2
  | .write k a value => (m.write k a value).2
  | .store a new => (m.writeBytes a new).2
  | .read _ _ => m

/-- The memory after a history of requests -/
def run (m : Memory) (history : List Request) : Memory := history.foldl after m

/-- The byte at a place of a region, if there is one. -/
def byte? (m : Memory) (region place : Nat) : Option UInt8 := m.regions[region]?.bind (·.bytes.toList[place]?)

variable {m m' m'' : Memory}

/-! ## What requests keep -/

/-- Every region stays, a shared one as it is; every slot keeps its scratch region, and new slots have new regions. -/
structure Keeps (m m' : Memory) : Prop where
  grows : m.Grows m'
  shared : ∀ (i : Nat) (r : Region), m.regions[i]? = some r → r.access = .shared → m'.regions[i]? = some r
  slots : ∀ slot region, m.slotRegion? slot = some region → m'.slotRegion? slot = some region
  new : ∀ slot region, m'.slotRegion? slot = some region →
    m.slotRegion? slot = some region ∨ m.regions.length ≤ region

theorem Grows.length_le (grows : m.Grows m') : m.regions.length ≤ m'.regions.length := by
  by_contra fewer
  obtain ⟨r', found, -⟩ := grows m'.regions.length _ (List.getElem?_eq_getElem (by omega))
  rw [List.getElem?_eq_none (Nat.le_refl _)] at found
  cases found

theorem Keeps.refl (m : Memory) : m.Keeps m where
  grows := .refl m
  shared _ _ found _ := found
  slots _ _ found := found
  new _ _ found := .inl found

theorem Keeps.trans (first : m.Keeps m') (second : m'.Keeps m'') : m.Keeps m'' where
  grows := first.grows.trans second.grows
  shared i r found access := second.shared i r (first.shared i r found access) access
  slots slot region found := second.slots slot region (first.slots slot region found)
  new slot region found := by
    have longer := first.grows.length_le
    obtain known | behind := second.new slot region found
    · exact first.new slot region known
    · exact .inr (longer.trans behind)

theorem keeps_add (m : Memory) (access : Access) (bytes : Buffer) : m.Keeps (m.add access bytes).2 := by
  have front : ∀ (i : Nat) (r : Region), m.regions[i]? = some r → (m.add access bytes).2.regions[i]? = some r := by
    intro i r found
    exact (List.getElem?_append_left (List.getElem?_eq_some_iff.mp found).1).trans found
  exact {
    grows := fun i r found => ⟨r, front i r found, rfl, Nat.le_refl _⟩
    shared := fun i r found _ => front i r found
    slots := fun _ _ found => found
    new := fun _ _ found => .inl found }

theorem keeps_put {a : Addr} {new : Bytes} (writable : m.Writable a new.length) : m.Keeps (m.put a new) where
  grows := grows_put m a new
  shared i r found access := by
    have differs : i ≠ a.region := by
      rintro rfl
      obtain ⟨r', found', lent, -⟩ := writable
      cases found.symm.trans found'
      exact lent access
    rw [getElem?_put_of_ne differs, found]
  slots _ _ found := found
  new _ _ found := .inl found

theorem of_slotRegion?_scratch {node slot length region : Nat} {other : Nat × Nat}
    (found : (m.scratch node slot length).2.slotRegion? other = some region) :
    m.slotRegion? other = some region ∨ m.regions.length ≤ region := by
  rw [scratch] at found
  split at found
  next => exact .inl found
  next =>
    obtain known | ⟨-, rfl⟩ := of_slotRegion?_addSlot found
    · exact .inl known
    · exact .inr (Nat.le_refl _)

theorem OwnScratch.keeps_scratch {base : Nat} (own : m.OwnScratch base) (node slot length : Nat) :
    m.Keeps (m.scratch node slot length).2 := by
  obtain ⟨own', reserves⟩ := scratch_spec own node slot length
  have grows := grows_scratch m node slot length
  refine ⟨grows, fun i r found access => ?_, reserves.kept, fun other region => of_slotRegion?_scratch⟩
  have differs : i ≠ (m.scratch node slot length).1 := by
    rintro rfl
    obtain ⟨r', found', access', -⟩ := grows _ r found
    obtain ⟨-, bytes, owned⟩ := own'.owned _ _ reserves.slotRegion?_eq
    cases owned.symm.trans found'
    cases access'.trans access
  rw [reserves.frame i differs, found]

theorem OwnScratch.add {base : Nat} (own : m.OwnScratch base) (access : Access) (bytes : Buffer) :
    (m.add access bytes).2.OwnScratch base where
  base_le := by
    have longer := (keeps_add m access bytes).grows.length_le
    exact own.base_le.trans longer
  owned slot region found := by
    obtain ⟨least, held, there⟩ := own.owned slot region found
    exact ⟨least, held, (List.getElem?_append_left (own.region_lt found)).trans there⟩
  distinct := own.distinct

/-- A write either is made where its bytes may be written, or changes nothing. -/
theorem OwnScratch.writeBytes {base : Nat} (own : m.OwnScratch base) (a : Addr) (new : Bytes) :
    (m.writeBytes a new).2.OwnScratch base ∧ m.Keeps (m.writeBytes a new).2 := by
  by_cases writable : m.Writable a new.length
  · rw [writable.writeBytes_eq]
    exact ⟨own.put a new, keeps_put writable⟩
  · obtain ⟨fault, failed⟩ := writeBytes_eq_of_not_writable writable
    rw [failed]
    exact ⟨own, .refl m⟩

/-- What one request keeps -/
theorem OwnScratch.after {base : Nat} (own : m.OwnScratch base) (request : Request) :
    (m.after request).OwnScratch base ∧ m.Keeps (m.after request) := by
  cases request with
  | register access bytes => exact ⟨own.add access bytes, keeps_add m access bytes⟩
  | scratch node slot length => exact ⟨(scratch_spec own node slot length).1, own.keeps_scratch node slot length⟩
  | write k a value => exact own.writeBytes a (value.encode k)
  | store a new => exact own.writeBytes a new
  | read k a => exact ⟨own, .refl m⟩

/-- What a history keeps -/
theorem OwnScratch.run {base : Nat} (own : m.OwnScratch base) (history : List Request) :
    (m.run history).OwnScratch base ∧ m.Keeps (m.run history) := by
  induction history generalizing m with
  | nil => exact ⟨own, .refl m⟩
  | cons request history inductionHypothesis =>
    obtain ⟨own', here⟩ := own.after request
    obtain ⟨own'', later⟩ := inductionHypothesis own'
    exact ⟨own'', here.trans later⟩

/-! ## Bytes -/

theorem byte?_put_of_outside {a : Addr} {new : Bytes} (writable : m.Writable a new.length) {region place : Nat}
    (outside : ¬(region = a.region ∧ a.offset ≤ place ∧ place < a.offset + new.length)) :
    (m.put a new).byte? region place = m.byte? region place := by
  by_cases same : region = a.region
  · obtain ⟨r, found, -, least, inside⟩ := writable
    rw [byte?, byte?, same, getElem?_put_self, found, Option.map_some, Option.bind_some, Option.bind_some]
    exact Buffer.getElem?_overwrite_of_outside inside (by omega)
  · rw [byte?, byte?, getElem?_put_of_ne same]

/-- Scratch that grows keeps the bytes that it has, and so do all other regions. -/
theorem byte?_scratch {node slot length region place : Nat} {b : UInt8} (stands : m.byte? region place = some b) :
    (m.scratch node slot length).2.byte? region place = some b := by
  obtain ⟨r, found, there⟩ := Option.bind_eq_some_iff.mp stands
  rw [scratch]
  split
  next key own listed =>
    by_cases same : own = region
    · subst same
      rw [byte?, List.getElem?_modify_eq, found, Option.map_eq_map, Option.map_some, Option.bind_some]
      split
      · rw [Buffer.toList_grow, List.getElem?_append_left (List.getElem?_eq_some_iff.mp there).1, there]
      · exact there
    · simpa [byte?, same, found] using there
  next =>
    have below := (List.getElem?_eq_some_iff.mp found).1
    rw [byte?]
    exact Option.bind_eq_some_iff.mpr ⟨r, (List.getElem?_append_left below).trans found, there⟩

/-! ## Scratch regions -/

theorem OwnScratch.scratch_eq_iff {base node slot length region : Nat} {other : Nat × Nat} (own : m.OwnScratch base)
    (known : m.slotRegion? other = some region) : (m.scratch node slot length).1 = region ↔ (node, slot) = other := by
  obtain ⟨own', reserves⟩ := scratch_spec own node slot length
  have there := reserves.kept other region known
  constructor
  · rintro rfl
    exact own'.distinct _ _ _ reserves.slotRegion?_eq there
  · rintro rfl
    exact Option.some.inj (reserves.slotRegion?_eq.symm.trans there)

/-- A region that no slot has is never given to one. -/
theorem Keeps.free {region : Nat} (keeps : m.Keeps m') (below : region < m.regions.length)
    (free : ∀ slot, m.slotRegion? slot ≠ some region) (slot : Nat × Nat) : m'.slotRegion? slot ≠ some region := by
  intro found
  obtain known | behind := keeps.new slot region found
  · exact free slot known
  · omega

/-! ## Separate stores -/

/-- The regions of a memory are separate stores of bytes, whatever is asked of it later. -/
structure Separate (m : Memory) : Prop where
  /-- A value is written just where its bytes lie inside a region that is not shared. -/
  write_iff : ∀ k a value, (m.write k a value).1 = .ok () ↔ m.Writable a k.size
  write_failed : ∀ k a value e, (m.write k a value).1 = .error e → (m.write k a value).2 = m
  /-- A value that elements of the kind have is read back. -/
  read_back : ∀ k a value,
    (m.write k a value).1 = .ok () → k.HasValue value → (m.write k a value).2.read k a = .ok value
  /-- Bytes outside those that are written stay, in this region and in all others. -/
  write_frame : ∀ k a value, (m.write k a value).1 = .ok () →
    ∀ region place : Nat, ¬(region = a.region ∧ a.offset ≤ place ∧ place < a.offset + k.size) →
      (m.write k a value).2.byte? region place = m.byte? region place
  shared : ∀ (later : List Request) (i : Nat) (r : Region),
    m.regions[i]? = some r → r.access = .shared → (m.run later).regions[i]? = some r
  /-- The number of a region stays valid, with the access of the region and no fewer bytes. -/
  grows : ∀ later, m.Grows (m.run later)
  /-- An argument has its bytes at the number that it is given. -/
  add : ∀ access bytes, (m.add access bytes).2.regions[(m.add access bytes).1]? = some ⟨access, bytes⟩
  scratch : ∀ node slot length, ∃ bytes,
    (m.scratch node slot length).2.regions[(m.scratch node slot length).1]? = some ⟨.owned, bytes⟩ ∧
      length ≤ bytes.size
  scratch_frame : ∀ node slot length region place b,
    m.byte? region place = some b → (m.scratch node slot length).2.byte? region place = some b
  /-- A slot is given the same region again, and no other slot is. -/
  scratch_iff : ∀ node slot length later node' slot' length',
    (((m.scratch node slot length).2.run later).scratch node' slot' length').1 = (m.scratch node slot length).1 ↔
      (node', slot') = (node, slot)
  /-- No slot is given the region of an argument. -/
  scratch_ne_add : ∀ access bytes later node slot length,
    (((m.add access bytes).2.run later).scratch node slot length).1 ≠ (m.add access bytes).1
  /-- No argument is given the region of a slot. -/
  add_ne_scratch : ∀ node slot length later access bytes,
    (((m.scratch node slot length).2.run later).add access bytes).1 ≠ (m.scratch node slot length).1

theorem OwnScratch.separate (own : m.OwnScratch 0) : m.Separate where
  write_iff k a value := write_ok_iff
  write_failed k a value e failed := by
    have forbidden : ¬m.Writable a (value.encode k).length := by
      intro writable
      rw [length_encode] at writable
      rw [write_ok_iff.mpr writable] at failed
      cases failed
    obtain ⟨fault, ran⟩ := writeBytes_eq_of_not_writable forbidden
    rw [write, ran]
  read_back k a value written has := by
    have writable := write_ok_iff.mp written
    rw [writable.write_eq]
    exact writable.read_put_of_hasValue has
  write_frame k a value written region place outside := by
    have writable := write_ok_iff.mp written
    rw [writable.write_eq]
    rw [← length_encode k value] at writable outside
    exact byte?_put_of_outside writable outside
  shared later i r found access := (own.run later).2.shared i r found access
  grows later := (own.run later).2.grows
  add access bytes := List.getElem?_concat_length
  scratch node slot length := by
    obtain ⟨own', reserves⟩ := scratch_spec own node slot length
    obtain ⟨-, bytes, owned⟩ := own'.owned _ _ reserves.slotRegion?_eq
    obtain ⟨r, found, -, -, inside⟩ := reserves.writable
    cases owned.symm.trans found
    exact ⟨bytes, owned, by simpa using inside⟩
  scratch_frame node slot length region place b stands := byte?_scratch stands
  scratch_iff node slot length later node' slot' length' := by
    obtain ⟨own', reserves⟩ := scratch_spec own node slot length
    obtain ⟨own'', keeps⟩ := own'.run later
    exact own''.scratch_eq_iff (keeps.slots _ _ reserves.slotRegion?_eq)
  scratch_ne_add access bytes later node slot length := by
    obtain ⟨own', keeps⟩ := (own.add access bytes).run later
    obtain ⟨-, reserves⟩ := scratch_spec own' node slot length
    -- When the argument is added no slot has its region, and no slot is given a region that is there already.
    have free : ∀ slot, (m.add access bytes).2.slotRegion? slot ≠ some m.regions.length := by
      intro slot found
      exact absurd (own.region_lt found) (Nat.lt_irrefl _)
    have below : m.regions.length < (m.add access bytes).2.regions.length := by simp [Memory.add]
    intro same
    have given := reserves.slotRegion?_eq
    rw [same] at given
    exact (keeps.trans (own'.keeps_scratch node slot length)).free below free (node, slot) given
  add_ne_scratch node slot length later access bytes := by
    obtain ⟨own', reserves⟩ := scratch_spec own node slot length
    obtain ⟨own'', keeps⟩ := own'.run later
    exact Nat.ne_of_gt (own''.region_lt (keeps.slots _ _ reserves.slotRegion?_eq))

theorem separate_run (history : List Request) : (empty.run history).Separate := by
  have own : empty.OwnScratch 0 := ownScratch_of_slots_eq_nil rfl (Nat.le_refl 0)
  exact (own.run history).1.separate

/-- The scratch of a slot can be written, but not an argument, and a second slot has a region of its own. -/
theorem separate_slot_and_argument :
    let argument : List Request := [.register .shared (.ofList [1, 2, 3, 4])]
    let m := (empty.run argument).scratch 0 1 4
    (∃ m', m.2.write (.int .w16) ⟨1, 2⟩ (.int 7) = (.ok (), m') ∧ m'.read (.int .w16) ⟨1, 2⟩ = .ok (.int 7) ∧
      m'.byte? 0 2 = some 3) ∧
    (m.2.write (.uint .w8) ⟨0, 0⟩ (.uint 1)).1 ≠ .ok () ∧
    (m.2.scratch 0 1 8).1 = m.1 ∧ (m.2.scratch 0 2 8).1 ≠ m.1 := by
  intro argument m
  have separate : m.2.Separate := separate_run (argument ++ [Request.scratch 0 1 4])
  have writable : m.2.Writable ⟨1, 2⟩ (Kind.int .w16).size := ⟨_, rfl, by decide, by decide, by decide⟩
  refine ⟨?_, ?_, ?_, ?_⟩
  · have written := (separate.write_iff (.int .w16) ⟨1, 2⟩ (.int 7)).mpr writable
    refine ⟨(m.2.write (.int .w16) ⟨1, 2⟩ (.int 7)).2, Prod.ext written rfl,
      separate.read_back _ _ _ written (Kind.hasValue_iff.mpr (by decide)), ?_⟩
    rw [separate.write_frame _ _ _ written 0 2 (by decide)]
    rfl
  · intro written
    obtain ⟨r, found, lent, -⟩ := (separate.write_iff _ _ _).mp written
    cases found
    exact lent rfl
  · exact ((separate_run argument).scratch_iff 0 1 4 [] 0 1 8).mpr rfl
  · exact fun same => absurd (((separate_run argument).scratch_iff 0 1 4 [] 0 2 8).mp same) (by decide)

end Memory

end ArrayCall
