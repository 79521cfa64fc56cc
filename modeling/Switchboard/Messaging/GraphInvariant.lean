import Switchboard.Messaging.Graph

/-!
# Well-formed message tree graphs

`Linked` collects what every single mutation keeps: children lists are the
inverse of the parent links, the status index is the inverse of the status ids,
prompt and status ids are disjoint, and parents have smaller rank. `WellFormed`
adds that every node but the root replies to a message of its parent, which
removal keeps only for a set closed under replies. On a linked graph both stack
loops stop.
-/

namespace Switchboard.Messaging

namespace MessageTreeGraph

variable {g h : MessageTreeGraph}

/-- Links and indexes agree. -/
structure Linked (g : MessageTreeGraph) : Prop where
  keyed : ∀ {id n}, g.getNode id = some n → n.nodeId = id
  nonempty : ∀ {id n}, g.getNode id = some n → id ≠ ""
  root : ∀ {n}, g.getNode g.rootId = some n → n.parentId = none ∧ n.parentReferenceId = none
  children : ∀ {p pn c}, g.getNode p = some pn →
    (c ∈ pn.childrenIds ↔ ∃ cn, g.getNode c = some cn ∧ cn.parentId = some p)
  childrenNodup : ∀ {p pn}, g.getNode p = some pn → pn.childrenIds.Nodup
  status : ∀ {s id}, g.statusToNode.get? s = some id ↔
    ∃ n, g.getNode id = some n ∧ n.statusMessageId = some s
  disjoint : ∀ {s id}, g.statusToNode.get? s = some id → g.getNode s = none
  ranked : ∃ rank : String → ℕ, ∀ {id n p}, g.getNode id = some n → n.parentId = some p →
    rank p < rank id

/-- `n` replies to a message of its parent. -/
def RepliesToParent (g : MessageTreeGraph) (n : MessageNode) : Prop :=
  ∃ p pn r, n.parentId = some p ∧ g.getNode p = some pn ∧ n.parentReferenceId = some r ∧
    (r = p ∨ pn.statusMessageId = some r)

/-- Every node but the root has its parent in the graph. -/
def ParentsPresent (g : MessageTreeGraph) : Prop :=
  ∀ {id n}, g.getNode id = some n → id ≠ g.rootId →
    ∃ p pn, n.parentId = some p ∧ g.getNode p = some pn

structure WellFormed (g : MessageTreeGraph) : Prop extends Linked g where
  parent : ∀ {id n}, g.getNode id = some n → id ≠ g.rootId → g.RepliesToParent n

@[simp] theorem getNode_updateNode (g : MessageTreeGraph) (id j : String)
    (f : MessageNode → MessageNode) :
    (g.updateNode id f).getNode j = if j = id then (g.getNode id).map f else g.getNode j :=
  Dict.get?_modify _ _ _ _

/-! ## Reading references -/

theorem Linked.findNode (hg : g.Linked) (s : String) :
    g.findNodeByStatusMessage s = (g.statusToNode.get? s).bind g.getNode := by
  unfold findNodeByStatusMessage
  cases hs : g.statusToNode.get? s with
  | none => rfl
  | some id =>
    obtain ⟨n, hn, -⟩ := hg.status.mp hs
    simp [hg.nonempty hn]

theorem Linked.resolve_prompt {n : MessageNode} {ref : String} (hn : g.getNode ref = some n) :
    g.resolveReference ref = some (n, .prompt) := by
  simp [resolveReference, hn]

theorem Linked.resolve_status (hg : g.Linked) {n : MessageNode} {id s : String}
    (hn : g.getNode id = some n) (hs : n.statusMessageId = some s) :
    g.resolveReference s = some (n, .status) := by
  have hidx := hg.status.mpr ⟨n, hn, hs⟩
  simp [resolveReference, hg.disjoint hidx, hg.findNode, hidx, hn]

/-- A resolved reference is a prompt id, or the status id of its owner. -/
theorem Linked.resolve_cases (hg : g.Linked) {ref : String} {n : MessageNode}
    {k : MessageReferenceKind} (h : g.resolveReference ref = some (n, k)) :
    g.getNode n.nodeId = some n ∧
      (k = .prompt ∧ ref = n.nodeId ∨ k = .status ∧ n.statusMessageId = some ref) := by
  unfold resolveReference at h
  cases hn : g.getNode ref with
  | some m =>
    rw [hn] at h
    cases h
    have hid := hg.keyed hn
    exact ⟨by rw [hid]; exact hn, Or.inl ⟨rfl, hid.symm⟩⟩
  | none =>
    rw [hn, hg.findNode] at h
    simp only [Option.map_eq_some_iff, Option.bind_eq_some_iff, Prod.mk.injEq] at h
    obtain ⟨m, ⟨id, hid, hm⟩, rfl, rfl⟩ := h
    obtain ⟨m', hm', hs⟩ := hg.status.mp hid
    rw [hm] at hm'
    cases hm'
    have hkey := hg.keyed hm
    exact ⟨by rw [hkey]; exact hm, Or.inr ⟨rfl, hs⟩⟩

/-- The parent check of `add_node` and `from_snapshot` is exactly `RepliesToParent`. -/
theorem Linked.resolves_to_iff (hg : g.Linked) {p r : String} {pn : MessageNode}
    (hp : g.getNode p = some pn) :
    (g.resolveReference r).map (·.1.nodeId) = some p ↔ r = p ∨ pn.statusMessageId = some r := by
  constructor
  · intro h
    obtain ⟨⟨n, k⟩, hres, hid⟩ := Option.map_eq_some_iff.mp h
    simp only at hid
    obtain ⟨hn, ⟨-, hr⟩ | ⟨-, hs⟩⟩ := hg.resolve_cases hres
    · exact Or.inl (hr.trans hid)
    · rw [hid, hp] at hn
      cases hn
      exact Or.inr hs
  · rintro (rfl | hs)
    · rw [Linked.resolve_prompt hp]
      exact congrArg some (hg.keyed hp)
    · rw [hg.resolve_status hp hs]
      exact congrArg some (hg.keyed hp)

/-! ## Termination of the stack loops -/

theorem mem_childrenOf {v c : String} :
    c ∈ g.childrenOf v ↔ ∃ n, g.getNode v = some n ∧ c ∈ n.childrenIds := by
  unfold childrenOf
  cases g.getNode v <;> simp

theorem Linked.rank_lt_of_descends (hg : g.Linked) {rank : String → ℕ}
    (hrank : ∀ {id n p}, g.getNode id = some n → n.parentId = some p → rank p < rank id)
    {v w : String} (h : Descends g.childrenOf v w) : v = w ∨ rank v < rank w := by
  induction h with
  | refl => exact Or.inl rfl
  | tail _ hc ih =>
    obtain ⟨n, hn, hc⟩ := mem_childrenOf.mp hc
    obtain ⟨cn, hcn, hp⟩ := (hg.children hn).mp hc
    have hlt := hrank hcn hp
    rcases ih with rfl | ih
    · exact Or.inr hlt
    · exact Or.inr (ih.trans hlt)

/-- Every node lies below the root, which is there with it. -/
theorem Linked.below_root (hg : g.Linked) (hp : g.ParentsPresent) {id : String} {n : MessageNode}
    (hn : g.getNode id = some n) :
    (∃ r, g.getNode g.rootId = some r) ∧ Descends g.childrenOf g.rootId id := by
  obtain ⟨rank, hrank⟩ := hg.ranked
  -- strong induction on the rank: the parent of a node that is not the root ranks lower
  induction hr : rank id using Nat.strong_induction_on generalizing id n with
  | _ k ih =>
    by_cases hroot : id = g.rootId
    · exact ⟨⟨n, hroot ▸ hn⟩, hroot ▸ .refl⟩
    · obtain ⟨p, pn, hpid, hpn⟩ := hp hn hroot
      obtain ⟨hex, hd⟩ := ih (rank p) (hr ▸ hrank hn hpid) hpn rfl
      exact ⟨hex, hd.tail (mem_childrenOf.mpr ⟨pn, hpn, (hg.children hpn).mpr ⟨n, hn, hpid⟩⟩)⟩

theorem WellFormed.parentsPresent (hg : g.WellFormed) : g.ParentsPresent := by
  intro id n hn hroot
  obtain ⟨p, pn, -, hp, hpn, -⟩ := hg.parent hn hroot
  exact ⟨p, pn, hp, hpn⟩

theorem Linked.childrenTree (hg : g.Linked) (start : String) :
    TreeBelow g.childrenOf start where
  nodup := by
    intro v
    unfold childrenOf
    cases hv : g.getNode v with
    | none => exact List.nodup_nil
    | some n => exact hg.childrenNodup hv
  parent := by
    intro v w c hv hw
    obtain ⟨n, hn, hv⟩ := mem_childrenOf.mp hv
    obtain ⟨m, hm, hw⟩ := mem_childrenOf.mp hw
    obtain ⟨cn, hcn, hpv⟩ := (hg.children hn).mp hv
    obtain ⟨cm, hcm, hpw⟩ := (hg.children hm).mp hw
    rw [hcn] at hcm
    cases hcm
    exact Option.some.inj (hpv.symm.trans hpw)
  root := by
    intro v hd hmem
    obtain ⟨rank, hrank⟩ := hg.ranked
    obtain ⟨n, hn, hc⟩ := mem_childrenOf.mp hmem
    obtain ⟨sn, hs, hp⟩ := (hg.children hn).mp hc
    have hlt := hrank hs hp
    rcases hg.rank_lt_of_descends hrank hd with rfl | h
    · exact lt_irrefl _ hlt
    · exact lt_asymm h hlt

theorem getDescendants_explore {id w : String} {l : List String}
    (hd : g.getDescendants id = .ok l) (hw : w ∈ l) :
    explore g.childrenOf g.nodes.keys.length [id] = some l := by
  unfold getDescendants at hd
  split_ifs at hd
  · cases hd
    cases hw
  · split at hd
    · next hl =>
      cases hd
      exact hl
    · cases hd

/-- `get_descendants` returns where no node has two parents and the start is no
child of its descendants. -/
theorem getDescendants_ok_of_tree {id : String} (ht : TreeBelow g.childrenOf id)
    (hmem : ∀ {v c}, c ∈ g.childrenOf v → ∃ n, g.getNode c = some n) :
    ∃ l, g.getDescendants id = .ok l := by
  unfold getDescendants
  split_ifs with hid
  · exact ⟨[], rfl⟩
  · rw [Bool.not_eq_false, Dict.contains_iff] at hid
    have hV : ∀ w, Descends g.childrenOf id w → w ∈ g.nodes.keys.toFinset := by
      intro w hw
      rw [List.mem_toFinset, Dict.mem_keys]
      cases hw with
      | refl => exact hid
      | tail _ hc => exact hmem hc
    obtain ⟨l, hl, -⟩ := explore_terminates ht hV (List.toFinset_card_le _)
    exact ⟨l, by rw [hl]⟩

theorem Linked.getDescendants_ok (hg : g.Linked) (id : String) :
    ∃ l, g.getDescendants id = .ok l := by
  refine getDescendants_ok_of_tree (hg.childrenTree id) ?_
  intro v c hc
  obtain ⟨n, hn, hc⟩ := mem_childrenOf.mp hc
  obtain ⟨cn, hcn, -⟩ := (hg.children hn).mp hc
  exact ⟨cn, hcn⟩

theorem mem_referenceLinks {n : MessageNode} {ref c : String} :
    c ∈ referenceLinks n ref ↔
      n.nodeId = ref ∧ n.statusMessageId = some c ∨
        n.parentReferenceId = some ref ∧ n.nodeId = c := by
  unfold referenceLinks
  by_cases h1 : n.nodeId = ref <;> by_cases h2 : n.parentReferenceId = some ref <;>
    simp [h1, h2, eq_comm]

/-- A message lies directly below a reference if it is the status of that prompt
or a reply to that reference. -/
theorem Linked.mem_referenceChildren (hg : g.Linked) {ref c : String} :
    c ∈ g.referenceChildren ref ↔
      (∃ n, g.getNode ref = some n ∧ n.statusMessageId = some c) ∨
        ∃ n, g.getNode c = some n ∧ n.parentReferenceId = some ref := by
  simp only [referenceChildren, List.mem_flatMap, Dict.mem_values, mem_referenceLinks]
  constructor
  · rintro ⟨n, ⟨id, hn⟩, ⟨rfl, hs⟩ | ⟨hr, rfl⟩⟩
    · exact Or.inl ⟨n, by rw [hg.keyed hn]; exact hn, hs⟩
    · exact Or.inr ⟨n, by rw [hg.keyed hn]; exact hn, hr⟩
  · rintro (⟨n, hn, hs⟩ | ⟨n, hn, hr⟩)
    · exact ⟨n, ⟨_, hn⟩, Or.inl ⟨hg.keyed hn, hs⟩⟩
    · exact ⟨n, ⟨_, hn⟩, Or.inr ⟨hr, hg.keyed hn⟩⟩

/-- The rank of a prompt is even, that of its status message the next odd number. -/
def referenceRank (g : MessageTreeGraph) (rank : String → ℕ) (ref : String) : ℕ :=
  match g.statusToNode.get? ref with
  | some id => 2 * rank id + 1
  | none => 2 * rank ref

theorem Linked.referenceRank_prompt (hg : g.Linked) (rank : String → ℕ) {id : String}
    {n : MessageNode} (hn : g.getNode id = some n) : g.referenceRank rank id = 2 * rank id := by
  unfold referenceRank
  cases hs : g.statusToNode.get? id with
  | none => rfl
  | some o => rw [hg.disjoint hs] at hn; cases hn

theorem Linked.referenceRank_status (hg : g.Linked) (rank : String → ℕ) {id s : String}
    {n : MessageNode} (hn : g.getNode id = some n) (hs : n.statusMessageId = some s) :
    g.referenceRank rank s = 2 * rank id + 1 := by
  unfold referenceRank
  rw [hg.status.mpr ⟨n, hn, hs⟩]

theorem WellFormed.referenceRank_lt (hg : g.WellFormed) {rank : String → ℕ}
    (hrank : ∀ {id n p}, g.getNode id = some n → n.parentId = some p → rank p < rank id)
    {ref c : String} (h : c ∈ g.referenceChildren ref) :
    g.referenceRank rank ref < g.referenceRank rank c := by
  rcases hg.mem_referenceChildren.mp h with ⟨n, hn, hs⟩ | ⟨n, hn, hr⟩
  · rw [hg.referenceRank_prompt rank hn, hg.referenceRank_status rank hn hs]
    omega
  · have hroot : c ≠ g.rootId := by
      rintro rfl
      rw [(hg.root hn).2] at hr
      cases hr
    obtain ⟨p, pn, r, hp, hpn, hr', hrp⟩ := hg.parent hn hroot
    rw [hr] at hr'
    cases hr'
    have hlt := hrank hn hp
    rw [hg.referenceRank_prompt rank hn]
    rcases hrp with rfl | hs
    · rw [hg.referenceRank_prompt rank hpn]
      omega
    · rw [hg.referenceRank_status rank hpn hs]
      omega

theorem WellFormed.referenceRank_descends (hg : g.WellFormed) {rank : String → ℕ}
    (hrank : ∀ {id n p}, g.getNode id = some n → n.parentId = some p → rank p < rank id)
    {v w : String} (h : Descends g.referenceChildren v w) :
    v = w ∨ g.referenceRank rank v < g.referenceRank rank w := by
  induction h with
  | refl => exact Or.inl rfl
  | tail _ hc ih =>
    have hlt := hg.referenceRank_lt hrank hc
    rcases ih with rfl | ih
    · exact Or.inr hlt
    · exact Or.inr (ih.trans hlt)

theorem Linked.referenceChildren_nodup (hg : g.Linked) (ref : String) :
    (g.referenceChildren ref).Nodup := by
  -- the contribution of one node holds its own ids only, and no two nodes share one
  have hpiece : ∀ e ∈ g.nodes.entries, (referenceLinks e.2 ref).Nodup := by
    rintro ⟨id, n⟩ he
    have hn : g.getNode id = some n := Dict.get?_eq_some.mpr he
    simp only [referenceLinks]
    split_ifs with h1 h2
    · cases hs : n.statusMessageId with
      | none => simp
      | some s =>
        have hidx := hg.status.mpr ⟨n, hn, hs⟩
        have hne : s ≠ n.nodeId := by
          rintro rfl
          rw [hg.keyed hn] at hidx
          rw [hg.disjoint hidx] at hn
          cases hn
        simpa using hne
    · cases n.statusMessageId <;> simp
    · simp
    · simp
  have hmem : ∀ {n m : MessageNode} {id j c : String}, g.getNode id = some n →
      g.getNode j = some m → c ∈ referenceLinks n ref → c ∈ referenceLinks m ref → id = j := by
    intro n m id j c hn hm hcn hcm
    have kn := hg.keyed hn
    have km := hg.keyed hm
    rcases mem_referenceLinks.mp hcn with ⟨h1, s1⟩ | ⟨-, h1⟩ <;>
      rcases mem_referenceLinks.mp hcm with ⟨h2, s2⟩ | ⟨-, h2⟩
    · rw [← kn, ← km, h1, h2]
    · have hc := hg.disjoint (hg.status.mpr ⟨n, hn, s1⟩)
      rw [← h2, km, hm] at hc
      cases hc
    · have hc := hg.disjoint (hg.status.mpr ⟨m, hm, s2⟩)
      rw [← h1, kn, hn] at hc
      cases hc
    · rw [← kn, ← km, h1, h2]
  unfold referenceChildren Dict.values
  rw [List.flatMap_map, List.nodup_flatMap]
  refine ⟨fun e he => hpiece e he, ?_⟩
  have hkeys := g.nodes.nodup
  rw [List.nodup_map_iff_inj_on (List.Nodup.of_map _ hkeys)] at hkeys
  apply (List.Nodup.of_map _ g.nodes.nodup).imp_of_mem
  rintro ⟨id, n⟩ ⟨j, m⟩ he hf hne c hcn hcm
  have hij := hmem (Dict.get?_eq_some.mpr he) (Dict.get?_eq_some.mpr hf) hcn hcm
  exact hne (hkeys _ he _ hf hij)

theorem WellFormed.referenceTree (hg : g.WellFormed) (start : String) :
    TreeBelow g.referenceChildren start where
  nodup := hg.referenceChildren_nodup
  parent := by
    intro v w c hv hw
    rcases hg.mem_referenceChildren.mp hv with ⟨n, hn, hs⟩ | ⟨n, hn, hr⟩ <;>
      rcases hg.mem_referenceChildren.mp hw with ⟨m, hm, ht⟩ | ⟨m, hm, hq⟩
    · have h1 := hg.status.mpr ⟨n, hn, hs⟩
      have h2 := hg.status.mpr ⟨m, hm, ht⟩
      exact Option.some.inj (h1.symm.trans h2)
    · have h1 := hg.disjoint (hg.status.mpr ⟨n, hn, hs⟩)
      rw [hm] at h1
      cases h1
    · have h1 := hg.disjoint (hg.status.mpr ⟨m, hm, ht⟩)
      rw [hn] at h1
      cases h1
    · rw [hn] at hm
      cases hm
      exact Option.some.inj (hr.symm.trans hq)
  root := by
    intro v hd hmem
    obtain ⟨rank, hrank⟩ := hg.ranked
    have hlt := hg.referenceRank_lt hrank hmem
    rcases hg.referenceRank_descends hrank hd with rfl | h
    · exact lt_irrefl _ hlt
    · exact lt_asymm h hlt

theorem Linked.allReferenceIds_card (hg : g.Linked) :
    g.allReferenceIds.toFinset.card ≤ 2 * g.nodes.keys.length := by
  -- every live status id belongs to a node of its own
  have hstatus : g.statusToNode.keys.length ≤ g.nodes.keys.length := by
    have hmaps : ∀ s ∈ g.statusToNode.keys.toFinset,
        ((g.statusToNode.get? s).getD "") ∈ g.nodes.keys.toFinset := by
      intro s hs
      obtain ⟨id, hid⟩ := Dict.mem_keys.mp (List.mem_toFinset.mp hs)
      obtain ⟨n, hn, -⟩ := hg.status.mp hid
      rw [List.mem_toFinset, Dict.mem_keys, hid]
      exact ⟨n, hn⟩
    have hinj : Set.InjOn (fun s => (g.statusToNode.get? s).getD "")
        (g.statusToNode.keys.toFinset : Set String) := by
      intro s hs t ht hst
      obtain ⟨i, hi⟩ := Dict.mem_keys.mp (List.mem_toFinset.mp (Finset.mem_coe.mp hs))
      obtain ⟨j, hj⟩ := Dict.mem_keys.mp (List.mem_toFinset.mp (Finset.mem_coe.mp ht))
      simp only [hi, hj, Option.getD_some] at hst
      subst hst
      obtain ⟨n, hn, hs⟩ := hg.status.mp hi
      obtain ⟨m, hm, ht⟩ := hg.status.mp hj
      rw [hn] at hm
      cases hm
      exact Option.some.inj (hs.symm.trans ht)
    have hle := Finset.card_le_card_of_injOn _ hmaps hinj
    rwa [List.toFinset_card_of_nodup g.statusToNode.keys_nodup,
      List.toFinset_card_of_nodup g.nodes.keys_nodup] at hle
  refine (List.toFinset_card_le _).trans ?_
  rw [allReferenceIds, List.length_append]
  omega

theorem mem_allReferenceIds {ref : String} :
    ref ∈ g.allReferenceIds ↔
      (∃ n, g.getNode ref = some n) ∨ ∃ id, g.statusToNode.get? ref = some id := by
  rw [allReferenceIds, List.mem_append, Dict.mem_keys, Dict.mem_keys]
  rfl

theorem Linked.resolve_isSome_iff (hg : g.Linked) {ref : String} :
    (g.resolveReference ref).isSome ↔ ref ∈ g.allReferenceIds := by
  rw [mem_allReferenceIds]
  constructor
  · intro h
    obtain ⟨⟨n, k⟩, hk⟩ := Option.isSome_iff_exists.mp h
    obtain ⟨hn, ⟨-, rfl⟩ | ⟨-, hs⟩⟩ := hg.resolve_cases hk
    · exact Or.inl ⟨n, hn⟩
    · exact Or.inr ⟨n.nodeId, hg.status.mpr ⟨n, hn, hs⟩⟩
  · rintro (⟨n, hn⟩ | ⟨id, hid⟩)
    · rw [Linked.resolve_prompt hn]
      rfl
    · obtain ⟨n, hn, hs⟩ := hg.status.mp hid
      rw [hg.resolve_status hn hs]
      rfl

/-- `get_reference_descendants` returns on a well-formed graph: exactly the
messages below the reference, each once. -/
theorem WellFormed.getReferenceDescendants_ok (hg : g.WellFormed) {ref : String}
    (href : (g.resolveReference ref).isSome) :
    ∃ l, g.getReferenceDescendants ref = .ok l ∧ l.Nodup ∧
      ∀ w, w ∈ l ↔ Descends g.referenceChildren ref w := by
  have hV : ∀ w, Descends g.referenceChildren ref w → w ∈ g.allReferenceIds.toFinset := by
    intro w hw
    rw [List.mem_toFinset]
    induction hw with
    | refl => exact hg.resolve_isSome_iff.mp href
    | tail _ hc _ =>
      rw [mem_allReferenceIds]
      rcases hg.mem_referenceChildren.mp hc with ⟨n, hn, hs⟩ | ⟨n, hn, -⟩
      · exact Or.inr ⟨_, hg.status.mpr ⟨n, hn, hs⟩⟩
      · exact Or.inl ⟨n, hn⟩
  obtain ⟨l, hl, hnd⟩ := explore_terminates (hg.referenceTree ref) hV hg.allReferenceIds_card
  refine ⟨l, ?_, hnd, fun w => mem_explore hl⟩
  unfold getReferenceDescendants
  rw [Option.isSome_iff_ne_none] at href
  rw [hl]
  simp [href]

end MessageTreeGraph

end Switchboard.Messaging
