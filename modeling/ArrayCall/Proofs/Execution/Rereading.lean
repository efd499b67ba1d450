import ArrayCall.Proofs.Execution.Footprint

/-!
# Reading elsewhere

A leaf reads all that it needs before it writes, so what it does depends on the bytes of its sources and
not on where they stand: it comes to the same if it reads them at other addresses
(`CallGraph.settled_single_ofLeaf_interchanged`).
-/

namespace ArrayCall

namespace Memory

/-- So many bytes stand at two addresses alike. -/
def Matches (m : Memory) (length : Nat) (a b : Addr) : Prop :=
  ∃ bytes, bytes.length = length ∧ m.Holds a bytes ∧ m.Holds b bytes

/-- A call reads the same at both addresses: they are one, or two in the memory of the call that match. -/
def Interchangeable (base : Nat) (m : Memory) (length : Nat) (a b : Addr) : Prop :=
  a = b ∨ a.region < base ∧ b.region < base ∧ m.Matches length a b

variable {m m' : Memory} {base length : Nat} {a b : Addr}

theorem Interchangeable.readBytes_eq (same : m.Interchangeable base length a b) :
    m.readBytes a length = m.readBytes b length := by
  obtain rfl | ⟨-, -, bytes, rfl, here, there⟩ := same
  · rfl
  · rw [here.readBytes_eq, there.readBytes_eq]

theorem Interchangeable.of_spares (same : m.Interchangeable base length a b)
    (spares : m.Spares (fun _ _ => True) base m') : m'.Interchangeable base length a b := by
  obtain rfl | ⟨inside, inside', bytes, count, here, there⟩ := same
  · exact .inl rfl
  · exact .inr ⟨inside, inside', bytes, count, spares.kept inside trivial here, spares.kept inside' trivial there⟩

end Memory

namespace Run

variable {α β : Type} {m : Memory} {a b : Addr}

theorem bind_apply_congr {first first' : Run α} {next next' : α → Run β} (same : first m = first' m)
    (later : ∀ v m', first' m = (.ok v, m') → next v m' = next' v m') : (first >>= next) m = (first' >>= next') m := by
  rw [bind_apply, bind_apply, same]
  rcases ran : first' m with ⟨e | v, m'⟩
  · rfl
  · exact later v m' ran

theorem within_apply_congr (kernel : Kernel) {act act' : Run α} (same : act m = act' m) :
    within kernel act m = within kernel act' m := by
  rw [within_apply, within_apply, same]

/-- Two runs through a list come to the same if each step does, wherever what is left of the list leads to. -/
theorem forM_apply_congr {list : List α} {act act' : α → Run Unit} (holds : List α → Memory → Prop)
    (step : ∀ x rest m, holds (x :: rest) m →
      act x m = act' x m ∧ ∀ m', act' x m = (.ok (), m') → holds rest m')
    (start : holds list m) : forM list act m = forM list act' m := by
  induction list generalizing m with
  | nil => rfl
  | cons x list inductionHypothesis =>
    obtain ⟨same, later⟩ := step x list m start
    rw [List.forM_cons, List.forM_cons]
    exact bind_apply_congr same fun _ m' ran => inductionHypothesis (later m' ran)

theorem loadBytes_bind_congr {length : Nat} {next next' : Bytes → Run β}
    (same : m.readBytes a length = m.readBytes b length) (later : ∀ bytes, next bytes m = next' bytes m) :
    (loadBytes a length >>= next) m = (loadBytes b length >>= next') m := by
  refine bind_apply_congr (by rw [loadBytes_eq, loadBytes_eq, same]) fun bytes m' ran => ?_
  have still := snd_loadBytes b length m
  rw [ran] at still
  obtain rfl : m' = m := still
  exact later bytes

theorem load_congr {k : Kind} (same : m.readBytes a k.size = m.readBytes b k.size) : load k a m = load k b m := by
  rw [load_eq, load_eq, same]

theorem loadAll_congr {base : Nat} {reads : List (Addr × Addr)} {kinds : List Kind}
    (same : List.Forall₂ (fun p (k : Kind) => m.Interchangeable base k.size p.1 p.2) reads kinds) :
    loadAll (reads.map (·.1)) kinds m = loadAll (reads.map (·.2)) kinds m := by
  induction same with
  | nil => rfl
  | cons here _ inductionHypothesis =>
    exact loadBytes_bind_congr here.readBytes_eq fun bytes => bind_apply_congr inductionHypothesis fun _ _ _ => rfl

end Run

namespace Node

variable {g : CallGraph} {r : Runner} {id base : Nat} {n : Node} {m : Memory} {dst : Addr} {reads : List (Addr × Addr)}

theorem runSingle_interchanged {kinds : List Kind} {kind : Kind}
    (operands : n.kernel.operands? n.data = some (kinds, kind))
    (same : List.Forall₂ (fun p (k : Kind) => m.Interchangeable base k.size p.1 p.2) reads kinds) :
    n.runSingle g r id dst (reads.map (·.1)) m = n.runSingle g r id dst (reads.map (·.2)) m := by
  have length := same.length_eq
  rw [runSingle_of_operands operands (by simpa using length), runSingle_of_operands operands (by simpa using length)]
  exact Run.bind_apply_congr (Run.loadAll_congr same) fun _ _ _ => rfl

/-- The element is read where it stands after scratch was asked for, which moves nothing of the call. -/
theorem converted_interchanged (own : m.OwnScratch base) (slot : Nat) {given : Kind} (want : Kind) {a b : Addr}
    (same : m.Interchangeable base given.size a b) :
    converted id slot given want a m = converted id slot given want b m := by
  refine Run.bind_apply_congr rfl fun place m' ran => ?_
  have spares : m.Spares (fun _ _ => True) base m' := Run.sparing_scratch own id slot want.size place m' ran
  exact Run.bind_apply_congr (Run.load_congr (same.of_spares spares).readBytes_eq) fun _ _ _ => rfl

/-- Each source is converted into the same scratch, or else is read by the kernel itself. What follows is
given both lists of addresses. -/
theorem convertSources_bind_interchanged {kinds : List (Kind × Kind)} {next next' : List Addr → Run Unit}
    (own : m.OwnScratch base) (slot : Nat)
    (same : List.Forall₂ (fun p (k : Kind × Kind) => m.Interchangeable base k.1.size p.1 p.2) reads kinds)
    (later : ∀ {places : List (Addr × Addr)} {m'}, m.Spares (fun _ _ => True) base m' →
      List.Forall₂ (fun p (k : Kind × Kind) => m'.Interchangeable base k.2.size p.1 p.2) places kinds →
      next (places.map (·.1)) m' = next' (places.map (·.2)) m') :
    (convertSources id slot (reads.map (·.1)) (kinds.map fun k => ConvertPlan.step k.1 k.2) >>= next) m =
      (convertSources id slot (reads.map (·.2)) (kinds.map fun k => ConvertPlan.step k.1 k.2) >>= next') m := by
  induction kinds generalizing reads slot m next next' with
  | nil =>
    obtain rfl := List.forall₂_nil_right_iff.mp same
    exact later (.refl own) .nil
  | cons k kinds inductionHypothesis =>
    obtain ⟨p, reads, first, others, rfl⟩ := List.forall₂_cons_right_iff.mp same
    simp only [List.map_cons]
    rw [ConvertPlan.step]
    split
    next unconverted =>
      simp only [convertSources, bind_assoc, pure_bind]
      refine inductionHypothesis own (slot + 1) others fun {places m'} spares rest => ?_
      exact later spares (.cons (unconverted ▸ first.of_spares spares) rest)
    next =>
      simp only [convertSources_cons_some, bind_assoc, pure_bind]
      refine Run.bind_apply_congr (converted_interchanged own slot k.2 first) fun place m₁ ran => ?_
      have spares₁ : m.Spares (fun _ _ => True) base m₁ := sparing_converted own slot k.1 k.2 p.2 place m₁ ran
      have others₁ := others.imp fun _ _ there => there.of_spares spares₁
      refine inductionHypothesis spares₁.own (slot + 1) others₁ fun {places m'} spares rest => ?_
      exact later (spares₁.trans spares) (.cons (b := k) (a := (place, place)) (.inl rfl) rest)

/-- A conversion hands its child the same scratch, and for the rest addresses that match as before. -/
theorem runSingle_convert_interchanged {c : Nat} {kinds : List (Kind × Kind)} {given want : Kind}
    (kernel : n.kernel = .convert)
    (data : n.data = .convert (.between (kinds.map (·.1)) (kinds.map (·.2)) (some given) (some want)))
    (present : g.child id n 0 = .ok c) (own : m.OwnScratch base)
    (same : List.Forall₂ (fun p (k : Kind × Kind) => m.Interchangeable base k.1.size p.1 p.2) reads kinds)
    (child : ∀ {place} {places : List (Addr × Addr)} {m'},
      List.Forall₂ (fun p (k : Kind × Kind) => m'.Interchangeable base k.2.size p.1 p.2) places kinds →
      r.single c place (places.map (·.1)) m' = r.single c place (places.map (·.2)) m') :
    n.runSingle g r id dst (reads.map (·.1)) m = n.runSingle g r id dst (reads.map (·.2)) m := by
  simp only [runSingle, kernel, runConvert, data, present, Run.ofExcept_ok, pure_bind, ConvertPlan.between_map,
    List.length_map]
  refine convertSources_bind_interchanged own 0 same fun {places m₁} spares₁ same₁ => ?_
  rw [ConvertPlan.step]
  split
  next => exact child same₁
  next =>
    have run : (converted id reads.length given want dst >>= fun place =>
          r.single c place (places.map (·.1)) >>= fun _ => Run.load want place >>= Run.store given dst) m₁ =
        (converted id reads.length given want dst >>= fun place =>
          r.single c place (places.map (·.2)) >>= fun _ => Run.load want place >>= Run.store given dst) m₁ := by
      refine Run.bind_apply_congr rfl fun place m₂ ran => ?_
      have spares₂ : m₁.Spares (fun _ _ => True) base m₂ := sparing_converted spares₁.own _ given want dst place m₂ ran
      exact Run.bind_apply_congr (child (same₁.imp fun _ _ there => there.of_spares spares₂)) fun _ _ _ => rfl
    simpa only [converted, bind_assoc, pure_bind] using run

end Node

namespace CallGraph

variable {g : CallGraph} {id base : Nat} {m : Memory} {reads : List (Addr × Addr)}

/-- A leaf comes to the same, behind a conversion or not, if each source is read where it stands alike. -/
theorem settled_single_ofLeaf_interchanged (descends : g.Descends) {kernel : Kernel} {data : NodeData}
    {kinds : List (Kind × Kind)} {given want : Kind} (operands : kernel.operands? data = some (kinds.map (·.2), want))
    (continues : g.Continues id (Chain.ofLeaf (kernel, data,
      .between (kinds.map (·.1)) (kinds.map (·.2)) (some given) (some want))).toList)
    (own : m.OwnScratch base)
    (same : List.Forall₂ (fun p (k : Kind × Kind) => m.Interchangeable base k.1.size p.1 p.2) reads kinds)
    (dst : Addr) :
    g.settled.single id dst (reads.map (·.1)) m = g.settled.single id dst (reads.map (·.2)) m := by
  rw [Chain.ofLeaf] at continues
  split at continues
  next plain =>
    obtain ⟨rfl, unconverted⟩ := (isIdentity_between_iff kinds given want).mp plain
    have found : g.nodes[id]? = some ⟨kernel, data, []⟩ := continues 0 Nat.one_pos
    rw [← List.map_congr_left unconverted] at operands
    rw [(settled_eq descends found).1, (settled_eq descends found).1]
    exact Run.within_apply_congr _ (Node.runSingle_interchanged operands (List.forall₂_map_right_iff.mpr same))
  next =>
    have found : g.nodes[id]? = some ⟨.convert, .convert _, [id + 1]⟩ := continues 0 Nat.two_pos
    have below : g.nodes[id + 1]? = some ⟨kernel, data, []⟩ := continues 1 Nat.one_lt_two
    rw [(settled_eq descends found).1, (settled_eq descends found).1]
    refine Run.within_apply_congr _ ?_
    refine Node.runSingle_convert_interchanged (c := id + 1) rfl rfl (child_of_getElem? rfl below) own same
      fun same' => ?_
    rw [(settled_eq descends below).1, (settled_eq descends below).1]
    exact Run.within_apply_congr _ (Node.runSingle_interchanged operands (List.forall₂_map_right_iff.mpr same'))

end CallGraph

end ArrayCall
