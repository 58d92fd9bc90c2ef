import DuckdbMl.Native.Ownership

/-!
# New shells, and shells that change their parent

## Main results

* `Inv.allocate`: a new shell behind a new slot
* `Inv.rebind`: a file work or a request takes or gives up its parent
-/

namespace DuckdbMl.Native

variable {past : Past} {g : Pending} {h h' : Heap} {s c : Shell} {x x' y y' : Cell}

/-! ### New shells -/

/-- Nobody retains a shell that has no cell. -/
theorem Inv.tally_eq_zero (hi : Inv past g h) (hs : h.cells s = none) :
    h.tally g.dying s = 0 := by
  refine Finset.sum_eq_zero fun t _ => if_neg ?_
  rintro ⟨hd, hp⟩
  obtain ⟨y, hy, hyp⟩ := Option.bind_eq_some_iff.mp hp
  obtain ⟨z, hz⟩ := hi.parent t y s hy hd hyp
  rw [hs] at hz
  cases hz

theorem Inv.cells_eq_none (hi : Inv past g h) (hs : s ∉ h.born) : h.cells s = none := by
  cases hx : h.cells s with
  | none => rfl
  | some x => exact absurd (hi.born s x hx) hs

/-- **A new shell** takes the reference to its parent with it. -/
theorem Inv.allocate {references : ℕ} {parent : Option Shell}
    (hi : Inv past ⟨parent, none, ∅, ∅⟩ h) (hs : s ∉ h.born)
    (hkind : ∀ q, parent = some q → q.RetainedBy s) (hrefs : s.counted = true → references = 1)
    (hrequest : (∃ r, s = .request r) → parent = none)
    (hcells : h'.cells = Function.update h.cells s (some (Cell.init references parent)))
    (hslot : h'.slot = Function.update h.slot s true) (hborn : h'.born = insert s h.born)
    (hlive : h'.live = h.live + 1) (hseen : h'.seen = h.seen) : Inv past .none h' := by
  have hnone := hi.cells_eq_none hs
  have hd : ∀ t : Shell, t ∉ (∅ : Finset Shell) := Finset.notMem_empty
  have hself : h'.cells s = some (Cell.init references parent) := by
    rw [hcells, Function.update_self]
  have hne : ∀ {t}, t ≠ s → h'.cells t = h.cells t := fun ht => by
    rw [hcells, Function.update_of_ne ht]
  have hcase : ∀ {t y}, h'.cells t = some y →
      t = s ∧ y = Cell.init references parent ∨ t ≠ s ∧ h.cells t = some y := by
    intro t y ht
    by_cases hts : t = s
    · subst hts
      exact .inl ⟨rfl, Option.some.inj (ht.symm.trans hself)⟩
    · exact .inr ⟨hts, hne hts ▸ ht⟩
  have hold : ∀ {t y}, h.cells t = some y → t ≠ s := by
    rintro t y hy rfl
    rw [hnone] at hy
    cases hy
  have hex : ∀ {t}, (∃ y, h.cells t = some y) → ∃ y, h'.cells t = some y :=
    fun ht => ht.imp fun y hy => (hne (hold hy)).trans hy
  -- the new shell is one more that retains its parent, and nobody retains it
  have htally : ∀ q, h'.tally ∅ q = (if parent = some q then 1 else 0) + h.tally ∅ q := by
    intro q
    rw [Heap.tally, hborn, Finset.sum_insert hs]
    congr 1
    · simp [Heap.retains, hself, Cell.init]
    · refine Finset.sum_congr rfl fun t ht => ?_
      rw [Heap.retains, Heap.retains, hne fun hts => hs (hts ▸ ht)]
  have htotal : h'.total = 1 + h.total := by
    rw [Heap.total, hborn, Finset.sum_insert hs, hself]
    congr 1
    exact Finset.sum_congr rfl fun t ht => by rw [hne fun hts => hs (hts ▸ ht)]
  refine
    { born := fun t y ht => ?_, slot := fun t ht _ _ => ?_, parent := fun t y q ht _ hp => ?_,
      kind := fun t y q ht hp => ?_, counted := fun q y hq hk _ => ?_,
      uncounted := fun t y ht hk _ => ?_, owed := fun q hq => (by cases hq),
      dying := fun t ht => absurd ht (hd t), active := fun c y r hcc hr => ?_,
      request := fun t y ht hr _ => ?_, installed := fun t y ht hst => ?_,
      fields := fun t y ht => ?_, capacity := fun t y ht hcap => ?_,
      bare := fun t ht => absurd ht (hd t), live := ?_, freed := fun t => ?_,
      unborn := fun t ht => ?_, cleared := fun t f hf => ?_,
      kept := fun t f y hf ht _ hcl ho => ?_, closed := fun t y ht _ hcl => ?_,
      cut := fun b y hb _ hcl hp => ?_, shut := fun b n hn => ?_ }
  · rw [hborn]
    rcases hcase ht with ⟨rfl, -⟩ | ⟨-, ht⟩
    · exact Finset.mem_insert_self t _
    · exact Finset.mem_insert_of_mem (hi.born t y ht)
  · by_cases hts : t = s
    · subst hts
      exact ⟨_, hself⟩
    · rw [hslot, Function.update_of_ne hts] at ht
      exact hex (hi.slot t ht (fun h => by cases h) (hd t))
  · rcases hcase ht with ⟨rfl, rfl⟩ | ⟨-, ht⟩
    · exact hex (hi.owed q hp).2.2
    · exact hex (hi.parent t y q ht (hd t) hp)
  · rcases hcase ht with ⟨rfl, rfl⟩ | ⟨-, ht⟩
    · exact hkind q hp
    · exact hi.kind t y q ht hp
  · rw [show h'.tally Pending.none.dying q = _ from htally q]
    rcases hcase hq with ⟨rfl, rfl⟩ | ⟨hqs, hq⟩
    · have hparent : ¬ parent = some q := fun h => (hkind q h).ne rfl
      have hzero : h.tally ∅ q = 0 := hi.tally_eq_zero hnone
      simp [Heap.slotRef, Pending.owes, Pending.none, hslot, hparent, hzero, Cell.init, hrefs hk]
    · obtain ⟨heq, hpos⟩ := hi.counted q y hq hk (hd q)
      refine ⟨?_, hpos⟩
      simp [Heap.slotRef, Pending.owes] at heq
      simp [Heap.slotRef, Pending.owes, Pending.none, hslot, hqs]
      omega
  · refine ⟨?_, fun h => by cases h⟩
    rw [hslot]
    rcases hcase ht with ⟨rfl, -⟩ | ⟨hts, ht⟩
    · exact Function.update_self ..
    · rw [Function.update_of_ne hts]
      exact (hi.uncounted t y ht hk (hd t)).1
  · rcases hcase hcc with ⟨-, rfl⟩ | ⟨-, hcc⟩
    · cases hr
    · obtain ⟨-, z, hz, hst, hp⟩ := hi.active c y r hcc hr
      exact ⟨hd r, z, (hne (hold hz)).trans hz, hst, hp⟩
  · rcases hcase ht with ⟨rfl, rfl⟩ | ⟨-, ht⟩
    · simp [Cell.init, hrequest hr]
    · exact hi.request t y ht hr (hd t)
  · rcases hcase ht with ⟨-, rfl⟩ | ⟨-, ht⟩
    · cases hst
    · obtain ⟨hreq, c, z, hp, hz, hzr⟩ := hi.installed t y ht hst
      exact ⟨hreq, c, z, hp, (hne (hold hz)).trans hz, hzr⟩
  · rcases hcase ht with ⟨-, rfl⟩ | ⟨-, ht⟩
    · exact Finset.empty_subset _
    · exact hi.fields t y ht
  · rcases hcase ht with ⟨-, rfl⟩ | ⟨-, ht⟩
    · exact absurd rfl hcap
    · exact hi.capacity t y ht hcap
  · have := hi.live
    omega
  · have := hi.freed t
    rw [hseen, hborn]
    by_cases hts : t = s
    · subst hts
      rw [if_neg hs] at this
      simp only [hself, Finset.mem_insert_self]
      simp
      omega
    · simp only [hne hts, Finset.mem_insert, hts, false_or]
      exact this
  · rw [hseen]
    exact hi.unborn t fun h => ht (hborn ▸ Finset.mem_insert_of_mem h)
  · obtain ⟨hle, heq⟩ := hi.cleared t f hf
    rw [hseen]
    refine ⟨hle, ?_⟩
    by_cases hts : t = s
    · subst hts
      simp only [hnone] at heq
      simp only [hself]
      rw [← heq]
      simp [Cell.init]
    · simpa only [hne hts] using heq
  · rw [hseen] at ho
    rcases hcase ht with ⟨rfl, rfl⟩ | ⟨-, ht⟩
    · rw [hi.unborn t hs] at ho
      cases ho
    · exact hi.kept t f y hf ht (hd t) hcl ho
  · rcases hcase ht with ⟨-, rfl⟩ | ⟨-, ht⟩
    · cases hcl
    · exact hi.closed t y ht (hd t) hcl
  · rcases hcase hb with ⟨-, rfl⟩ | ⟨-, hb⟩
    · cases hcl
    · exact hi.cut b y hb (hd _) hcl hp
  · obtain ⟨hb, hopened, hclosing⟩ := hi.shut b n hn
    refine ⟨hborn ▸ Finset.mem_insert_of_mem hb, hseen ▸ hopened, fun y hy => ?_⟩
    exact hclosing y (hne (fun hbs => hs (hbs ▸ hb)) ▸ hy)

/-! ### Shells that change their parent -/

/-- The state in which `s` has another parent or state, and `c` another active request. -/
structure Rebound (h h' : Heap) (s c : Shell) (x : Cell) (parent : Option Shell)
    (state : RequestState) (y : Cell) (active : Option Shell) : Prop where
  cells : h'.cells = Function.update (Function.update h.cells c (some { y with active := active }))
    s (some { x with parent := parent, state := state })
  slot : h'.slot = h.slot
  born : h'.born = h.born
  live : h'.live = h.live
  seen : h'.seen = h.seen

namespace Rebound

variable {parent active : Option Shell} {state : RequestState}

theorem self (hb : Rebound h h' s c x parent state y active) :
    h'.cells s = some { x with parent := parent, state := state } := by
  rw [hb.cells, Function.update_self]

theorem connection (hb : Rebound h h' s c x parent state y active) (hcs : c ≠ s) :
    h'.cells c = some { y with active := active } := by
  rw [hb.cells, Function.update_of_ne hcs, Function.update_self]

theorem of_ne (hb : Rebound h h' s c x parent state y active) {t : Shell} (hs : t ≠ s)
    (hc : t ≠ c) : h'.cells t = h.cells t := by
  rw [hb.cells, Function.update_of_ne hs, Function.update_of_ne hc]

/-- The cell of a shell before, all of which but its parent, state and active request is kept. -/
theorem before (hb : Rebound h h' s c x parent state y active) (hcs : c ≠ s)
    (hx : h.cells s = some x) (hy : h.cells c = some y) {t : Shell} {z : Cell}
    (ht : h'.cells t = some z) : ∃ w, h.cells t = some w ∧
      z = ⟨w.references, if t = s then parent else w.parent, w.held, w.capacity, w.closing,
        if t = c then active else w.active, if t = s then state else w.state, w.reserved⟩ := by
  by_cases hts : t = s
  · subst hts
    obtain rfl := Option.some.inj (ht.symm.trans hb.self)
    exact ⟨x, hx, by simp [Ne.symm hcs]⟩
  · by_cases htc : t = c
    · subst htc
      obtain rfl := Option.some.inj (ht.symm.trans (hb.connection hcs))
      exact ⟨y, hy, by simp [hcs]⟩
    · exact ⟨z, (hb.of_ne hts htc).symm.trans ht, by simp [hts, htc]⟩

theorem exists_cell (hb : Rebound h h' s c x parent state y active) {t : Shell}
    (ht : ∃ z, h.cells t = some z) : ∃ z, h'.cells t = some z := by
  by_cases hts : t = s
  · exact ⟨_, hts ▸ hb.self⟩
  · by_cases htc : t = c
    · exact ⟨_, htc ▸ hb.connection fun h => hts (htc.trans h)⟩
    · rw [hb.of_ne hts htc]
      exact ht

theorem tally (hb : Rebound h h' s c x parent state y active) (hcs : c ≠ s)
    (hx : h.cells s = some x) (hy : h.cells c = some y) (hs : s ∈ h.born) {dying : Finset Shell}
    (hd : s ∉ dying) (q : Shell) :
    h'.tally dying q + (if x.parent = some q then 1 else 0) =
      h.tally dying q + (if parent = some q then 1 else 0) := by
  have hsum := sum_add_eq_sum_add (f := h.retains dying q) (g := h'.retains dying q) hs
    fun t _ hts => by
      by_cases htc : t = c
      · subst htc
        simp [Heap.retains, hb.connection hcs, hy]
      · simp [Heap.retains, hb.of_ne hts htc]
  have hbefore : h.retains dying q s = if x.parent = some q then 1 else 0 := by
    simp [Heap.retains, hd, hx]
  have hafter : h'.retains dying q s = if parent = some q then 1 else 0 := by
    simp [Heap.retains, hd, hb.self]
  rw [hbefore, hafter] at hsum
  rw [Heap.tally, hb.born]
  exact hsum

theorem total (hb : Rebound h h' s c x parent state y active) (hcs : c ≠ s)
    (hx : h.cells s = some x) (hy : h.cells c = some y) : h'.total = h.total := by
  rw [Heap.total, Heap.total, hb.born]
  refine Finset.sum_congr rfl fun t _ => ?_
  by_cases hts : t = s
  · subst hts
    rw [hb.self, hx]
    rfl
  · by_cases htc : t = c
    · subst htc
      rw [hb.connection hcs, hy]
      rfl
    · rw [hb.of_ne hts htc]

end Rebound

/-- **A shell takes or gives up its parent**, and with it a reference that is owed. -/
theorem Inv.rebind {parent active owed : Option Shell} {state : RequestState}
    (hi : Inv past g h) (hb : Rebound h h' s c x parent state y active)
    (hx : h.cells s = some x) (hy : h.cells c = some y) (hs : s ∉ g.dying) (hc : c ∉ g.dying)
    (hkind : c.RetainedBy s) (hold : x.parent = none ∨ x.parent = some c)
    (hnew : parent = none ∨ parent = some c)
    (hgowed : g.owed = none ∨ g.owed = some c) (howed : owed = none ∨ owed = some c)
    (hrefs : (if parent = some c then 1 else 0) + (if owed = some c then 1 else 0) =
      (if x.parent = some c then 1 else 0) + (if g.owed = some c then 1 else 0))
    (hactive : ∀ r, active = some r →
      r = s ∧ state = .installed ∧ parent = some c ∨ r ≠ s ∧ y.active = some r)
    (hothers : ∀ t, t ≠ s → y.active = some t → active = some t)
    (hinstalled : state = .installed →
      (∃ r, s = .request r) ∧ parent = some c ∧ active = some s)
    (hrequest : (∃ r, s = .request r) → (state = .installed ↔ parent.isSome = true)) :
    Inv past { g with owed := owed } h' := by
  have hcs : c ≠ s := hkind.ne.symm
  have hcase := fun {t z} => hb.before hcs hx hy (t := t) (z := z)
  have htally := hb.tally hcs hx hy (hi.born s x hx) hs
  -- a parent other than `c` is the parent before, of a shell other than `s`
  have hne : ∀ {o : Option Shell} {q}, o = none ∨ o = some c → q ≠ c → o ≠ some q := by
    rintro o q (rfl | rfl) hqc h
    · cases h
    · exact hqc (Option.some.inj h).symm
  refine
    { born := fun t z ht => ?_, slot := fun t ht hr hd => ?_, parent := fun t z q ht hd hp => ?_,
      kind := fun t z q ht hp => ?_, counted := fun q z hq hk hd => ?_,
      uncounted := fun t z ht hk hd => ?_, owed := fun q hq => ?_, dying := fun t ht => ?_,
      active := fun b z r hz hr => ?_, request := fun t z ht hr hd => ?_,
      installed := fun t z ht hst => ?_, fields := fun t z ht => ?_,
      capacity := fun t z ht hcap => ?_, bare := fun t ht => ?_, live := ?_, freed := fun t => ?_,
      unborn := fun t ht => ?_, cleared := fun t f hf => ?_,
      kept := fun t f z hf ht hd hcl ho => ?_, closed := fun t z ht hd hcl => ?_,
      cut := fun b z hz hd hcl hp => ?_, shut := fun b n hn => ?_ }
  · obtain ⟨w, hw, -⟩ := hcase ht
    exact hb.born ▸ hi.born t w hw
  · exact hb.exists_cell (hi.slot t (hb.slot ▸ ht) hr hd)
  · obtain ⟨w, hw, rfl⟩ := hcase ht
    dsimp only at hp
    split at hp
    · by_cases hqc : q = c
      · exact hb.exists_cell ⟨y, hqc ▸ hy⟩
      · exact absurd hp (hne hnew hqc)
    · exact hb.exists_cell (hi.parent t w q hw hd hp)
  · obtain ⟨w, hw, rfl⟩ := hcase ht
    dsimp only at hp
    split at hp
    case isTrue hts =>
      by_cases hqc : q = c
      · rw [hqc, hts]
        exact hkind
      · exact absurd hp (hne hnew hqc)
    case isFalse => exact hi.kind t w q hw hp
  · obtain ⟨w, hw, rfl⟩ := hcase hq
    obtain ⟨heq, hpos⟩ := hi.counted q w hw hk hd
    refine ⟨?_, hpos⟩
    have hq := htally q
    simp only [Heap.slotRef, hb.slot]
    simp only [Heap.slotRef, Pending.owes] at heq ⊢
    by_cases hqc : q = c
    · subst hqc
      omega
    · rw [if_neg (hne hold hqc), if_neg (hne hnew hqc)] at hq
      rw [if_neg (hne hgowed hqc)] at heq
      rw [if_neg (hne howed hqc)]
      omega
  · obtain ⟨w, hw, rfl⟩ := hcase ht
    exact hb.slot ▸ hi.uncounted t w hw hk hd
  · have hqc : q = c := by
      by_contra hqc
      exact hne howed hqc hq
    rw [hqc]
    exact ⟨hkind.counted, hc, hb.exists_cell ⟨y, hy⟩⟩
  · obtain ⟨hex, hsl, horphan⟩ := hi.dying t ht
    refine ⟨hb.exists_cell hex, by rw [hb.slot]; exact hsl, fun u z hu hud => ?_⟩
    obtain ⟨w, hw, rfl⟩ := hcase hu
    dsimp only
    split
    · exact hne hnew fun h => hc (h ▸ ht)
    · exact horphan u w hw hud
  · obtain ⟨w, hw, rfl⟩ := hcase hz
    have hother : r ≠ s → w.active = some r →
        r ∉ g.dying ∧ ∃ v, h'.cells r = some v ∧ v.state = .installed ∧ v.parent = some b := by
      intro hrs hwr
      obtain ⟨hrd, v, hv, hst, hp⟩ := hi.active b w r hw hwr
      obtain ⟨v', hv'⟩ := hb.exists_cell ⟨v, hv⟩
      obtain ⟨u, hu, rfl⟩ := hcase hv'
      obtain rfl := Option.some.inj (hv.symm.trans hu)
      exact ⟨hrd, _, hv', by simp [hrs, hst], by simp [hrs, hp]⟩
    dsimp only at hr
    split at hr
    case isTrue hbc =>
      subst hbc
      obtain rfl := Option.some.inj (hw.symm.trans hy)
      rcases hactive r hr with ⟨rfl, hst, hp⟩ | ⟨hrs, hwr⟩
      · exact ⟨hs, _, hb.self, hst, hp⟩
      · exact hother hrs hwr
    case isFalse hbc =>
      refine hother (fun hrs => ?_) hr
      -- `s` is active on no connection but its parent
      obtain ⟨-, v, hv, -, hp⟩ := hi.active b w r hw hr
      rw [hrs] at hv
      obtain rfl := Option.some.inj (hv.symm.trans hx)
      exact hne hold hbc hp
  · obtain ⟨w, hw, rfl⟩ := hcase ht
    by_cases hts : t = s
    · simp only [if_pos hts]
      exact hrequest (hts ▸ hr)
    · simp only [if_neg hts]
      exact hi.request t w hw hr hd
  · obtain ⟨w, hw, rfl⟩ := hcase ht
    by_cases hts : t = s
    · subst hts
      simp only [if_true] at hst ⊢
      obtain ⟨hreq, hp, ha⟩ := hinstalled hst
      exact ⟨hreq, c, _, hp, hb.connection hcs, ha⟩
    · simp only [if_neg hts] at hst ⊢
      obtain ⟨hreq, b, z, hp, hz, hzt⟩ := hi.installed t w hw hst
      obtain ⟨z', hz'⟩ := hb.exists_cell ⟨z, hz⟩
      obtain ⟨u, hu, rfl⟩ := hcase hz'
      obtain rfl := Option.some.inj (hz.symm.trans hu)
      refine ⟨hreq, b, _, hp, hz', ?_⟩
      dsimp only
      split
      case isTrue hbc =>
        subst hbc
        obtain rfl := Option.some.inj (hz.symm.trans hy)
        exact hothers t hts hzt
      case isFalse => exact hzt
  · obtain ⟨w, hw, rfl⟩ := hcase ht
    exact hi.fields t w hw
  · obtain ⟨w, hw, rfl⟩ := hcase ht
    exact hi.capacity t w hw hcap
  · obtain ⟨hd, hweight⟩ := hi.bare t ht
    refine ⟨hd, fun z hz => ?_⟩
    obtain ⟨w, hw, rfl⟩ := hcase hz
    exact hweight w hw
  · rw [hb.live, hb.total hcs hx hy]
    exact hi.live
  · have hsome : (h'.cells t).isSome = (h.cells t).isSome := by
      rw [Bool.eq_iff_iff, Option.isSome_iff_exists, Option.isSome_iff_exists]
      exact ⟨fun h => h.elim fun z hz => (hcase hz).imp fun _ h => h.1, hb.exists_cell⟩
    rw [hb.seen, hb.born, hsome]
    exact hi.freed t
  · rw [hb.seen]
    exact hi.unborn t (hb.born ▸ ht)
  · have hheld : (∃ z, h'.cells t = some z ∧ f ∈ z.held) ↔
        ∃ z, h.cells t = some z ∧ f ∈ z.held := by
      constructor
      · rintro ⟨z, hz, hzf⟩
        obtain ⟨w, hw, rfl⟩ := hcase hz
        exact ⟨w, hw, hzf⟩
      · rintro ⟨z, hz, hzf⟩
        obtain ⟨z', hz'⟩ := hb.exists_cell ⟨z, hz⟩
        obtain ⟨u, hu, rfl⟩ := hcase hz'
        obtain rfl := Option.some.inj (hz.symm.trans hu)
        exact ⟨_, hz', hzf⟩
    obtain ⟨hle, heq⟩ := hi.cleared t f hf
    rw [hb.seen]
    refine ⟨hle, ?_⟩
    rw [← heq]
    simp only [hheld]
  · obtain ⟨w, hw, rfl⟩ := hcase ht
    rw [hb.seen] at ho
    exact hi.kept t f w hf hw hd hcl ho
  · obtain ⟨w, hw, rfl⟩ := hcase ht
    exact hi.closed t w hw hd hcl
  · obtain ⟨w, hw, rfl⟩ := hcase hz
    exact hi.cut b w hw hd hcl hp
  · obtain ⟨hborn, hopened, hclosing⟩ := hi.shut b n hn
    refine ⟨hb.born ▸ hborn, hb.seen ▸ hopened, fun z hz hp => ?_⟩
    obtain ⟨w, hw, rfl⟩ := hcase hz
    exact hclosing w hw hp

end DuckdbMl.Native
