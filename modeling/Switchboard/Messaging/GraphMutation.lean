import Switchboard.Messaging.GraphInvariant

/-!
# Mutations keep the message tree graph well formed

State updates keep the links, `add_node` adds a leaf, and removing a literal
reply subtree (with the status it hangs on, for a status reference) leaves a
well-formed graph whose other nodes only lose removed children.
-/

namespace Switchboard.Messaging

namespace MessageTreeGraph

variable {g h : MessageTreeGraph}

/-! ## State updates -/

/-- `h` is `g` with node states, prompts and sessions changed. -/
structure SameShape (g h : MessageTreeGraph) : Prop where
  rootId : h.rootId = g.rootId
  identity : h.identity = g.identity
  status : h.statusToNode = g.statusToNode
  keys : h.nodes.keys = g.nodes.keys
  node : ∀ id n, g.getNode id = some n → ∃ m, h.getNode id = some m ∧ n.SameLinks m

theorem SameShape.refl (g : MessageTreeGraph) : g.SameShape g :=
  ⟨rfl, rfl, rfl, rfl, fun _ n hn => ⟨n, hn, ⟨rfl, rfl, rfl, rfl, rfl⟩⟩⟩

theorem SameShape.trans {k : MessageTreeGraph} (hgh : g.SameShape h) (hhk : h.SameShape k) :
    g.SameShape k where
  rootId := hhk.rootId.trans hgh.rootId
  identity := hhk.identity.trans hgh.identity
  status := hhk.status.trans hgh.status
  keys := hhk.keys.trans hgh.keys
  node := by
    intro id n hn
    obtain ⟨m, hm, l1⟩ := hgh.node id n hn
    obtain ⟨k, hk, l2⟩ := hhk.node id m hm
    exact ⟨k, hk, l2.nodeId.trans l1.nodeId, l2.status.trans l1.status,
      l2.parent.trans l1.parent, l2.reference.trans l1.reference, l2.children.trans l1.children⟩

theorem SameShape.node_back (hs : g.SameShape h) {id : String} {m : MessageNode}
    (hm : h.getNode id = some m) : ∃ n, g.getNode id = some n ∧ n.SameLinks m := by
  have hk : id ∈ g.nodes.keys := by
    rw [← hs.keys, Dict.mem_keys]
    exact ⟨m, hm⟩
  obtain ⟨n, hn⟩ := Dict.mem_keys.mp hk
  obtain ⟨m', hm', hl⟩ := hs.node id n hn
  rw [hm] at hm'
  cases hm'
  exact ⟨n, hn, hl⟩

theorem sameShape_updateNode (g : MessageTreeGraph) (id : String) {f : MessageNode → MessageNode}
    (hf : ∀ n : MessageNode, n.SameLinks (f n)) : g.SameShape (g.updateNode id f) where
  rootId := rfl
  identity := rfl
  status := rfl
  keys := Dict.keys_modify _ _ _
  node := by
    intro j n hn
    rw [getNode_updateNode]
    split_ifs with hj
    · subst hj
      exact ⟨f n, by rw [hn]; rfl, hf n⟩
    · exact ⟨n, hn, ⟨rfl, rfl, rfl, rfl, rfl⟩⟩

theorem WellFormed.of_sameShape (hg : g.WellFormed) (hs : g.SameShape h) : h.WellFormed where
  keyed := by
    intro id m hm
    obtain ⟨n, hn, hl⟩ := hs.node_back hm
    rw [hl.nodeId, hg.keyed hn]
  nonempty := by
    intro id m hm
    obtain ⟨n, hn, -⟩ := hs.node_back hm
    exact hg.nonempty hn
  root := by
    intro m hm
    rw [hs.rootId] at hm
    obtain ⟨n, hn, hl⟩ := hs.node_back hm
    rw [hl.parent, hl.reference]
    exact hg.root hn
  children := by
    intro p pm c hp
    obtain ⟨pn, hpn, hl⟩ := hs.node_back hp
    rw [hl.children, hg.children hpn]
    constructor
    · rintro ⟨cn, hcn, hpc⟩
      obtain ⟨cm, hcm, lc⟩ := hs.node _ _ hcn
      exact ⟨cm, hcm, lc.parent.trans hpc⟩
    · rintro ⟨cm, hcm, hpc⟩
      obtain ⟨cn, hcn, lc⟩ := hs.node_back hcm
      exact ⟨cn, hcn, lc.parent.symm.trans hpc⟩
  childrenNodup := by
    intro p pm hp
    obtain ⟨pn, hpn, hl⟩ := hs.node_back hp
    rw [hl.children]
    exact hg.childrenNodup hpn
  status := by
    intro s id
    rw [hs.status, hg.status]
    constructor
    · rintro ⟨n, hn, hsn⟩
      obtain ⟨m, hm, hl⟩ := hs.node _ _ hn
      exact ⟨m, hm, hl.status.trans hsn⟩
    · rintro ⟨m, hm, hsm⟩
      obtain ⟨n, hn, hl⟩ := hs.node_back hm
      exact ⟨n, hn, hl.status.symm.trans hsm⟩
  disjoint := by
    intro s id hid
    rw [hs.status] at hid
    cases hm : h.getNode s with
    | none => rfl
    | some m =>
      obtain ⟨n, hn, -⟩ := hs.node_back hm
      rw [hg.disjoint hid] at hn
      cases hn
  ranked := by
    obtain ⟨rank, hrank⟩ := hg.ranked
    refine ⟨rank, ?_⟩
    intro id m p hm hp
    obtain ⟨n, hn, hl⟩ := hs.node_back hm
    exact hrank hn (hl.parent.symm.trans hp)
  parent := by
    intro id m hm hroot
    obtain ⟨n, hn, hl⟩ := hs.node_back hm
    rw [hs.rootId] at hroot
    obtain ⟨p, pn, r, hp, hpn, hr, hrp⟩ := hg.parent hn hroot
    obtain ⟨pm, hpm, lp⟩ := hs.node _ _ hpn
    refine ⟨p, pm, r, hl.parent.trans hp, hpm, hl.reference.trans hr, ?_⟩
    rw [lp.status]
    exact hrp

theorem WellFormed.updateNode (hg : g.WellFormed) (id : String) {f : MessageNode → MessageNode}
    (hf : ∀ n : MessageNode, n.SameLinks (f n)) : (g.updateNode id f).WellFormed :=
  hg.of_sameShape (sameShape_updateNode g id hf)

theorem WellFormed.markError (hg : g.WellFormed) (id : String) :
    (g.updateNode id MessageNode.markError).WellFormed :=
  hg.updateNode id fun n => n.sameLinks_updateState _ _

/-! ## Removing nodes -/

def withoutChildren (ids : List String) (n : MessageNode) : MessageNode :=
  { n with childrenIds := n.childrenIds.filter fun c => c ∉ ids }

@[simp] theorem withoutChildren_nodeId (ids : List String) (n : MessageNode) :
    (withoutChildren ids n).nodeId = n.nodeId := rfl
@[simp] theorem withoutChildren_state (ids : List String) (n : MessageNode) :
    (withoutChildren ids n).state = n.state := rfl
@[simp] theorem withoutChildren_statusMessageId (ids : List String) (n : MessageNode) :
    (withoutChildren ids n).statusMessageId = n.statusMessageId := rfl
@[simp] theorem withoutChildren_parentId (ids : List String) (n : MessageNode) :
    (withoutChildren ids n).parentId = n.parentId := rfl
@[simp] theorem withoutChildren_parentReferenceId (ids : List String) (n : MessageNode) :
    (withoutChildren ids n).parentReferenceId = n.parentReferenceId := rfl

theorem withoutChildren_withoutChildren (ids js : List String) (n : MessageNode) :
    withoutChildren js (withoutChildren ids n) = withoutChildren (ids ++ js) n := by
  simp only [withoutChildren, List.filter_filter, List.mem_append, not_or]
  congr 1
  apply List.filter_congr
  intro c _
  simp [Bool.and_comm]

theorem withoutChildren_of_disjoint {ids : List String} {n : MessageNode}
    (h : ∀ c ∈ n.childrenIds, c ∉ ids) : withoutChildren ids n = n := by
  simp only [withoutChildren]
  congr 1
  exact List.filter_eq_self.mpr fun c hc => by simpa using h c hc

theorem removeNode_of_none {id : String} (hid : g.getNode id = none) : g.removeNode id = g := by
  simp [removeNode, hid]

theorem removeNode_of_some {id : String} {n : MessageNode} (hn : g.getNode id = some n) :
    g.removeNode id =
      { g with
        nodes := (match n.parentId with
          | some p => g.nodes.modify p fun parent =>
              { parent with childrenIds := parent.childrenIds.filter fun c => c ≠ id }
          | none => g.nodes).erase id
        statusToNode := match n.statusMessageId with
          | some s => g.statusToNode.erase s
          | none => g.statusToNode } := by
  unfold removeNode
  split
  · next h => simp [hn] at h
  · next m h =>
    cases hn.symm.trans h
    rfl

theorem removeNode_rootId (g : MessageTreeGraph) (id : String) :
    (g.removeNode id).rootId = g.rootId := by
  unfold removeNode
  split <;> rfl

theorem removeNode_identity (g : MessageTreeGraph) (id : String) :
    (g.removeNode id).identity = g.identity := by
  unfold removeNode
  split <;> rfl

theorem removeNode_status (g : MessageTreeGraph) {id : String} {n : MessageNode}
    (hn : g.getNode id = some n) (s : String) :
    (g.removeNode id).statusToNode.get? s =
      if n.statusMessageId = some s then none else g.statusToNode.get? s := by
  simp only [removeNode, hn]
  cases ht : n.statusMessageId with
  | none => simp
  | some t =>
    simp only [Dict.get?_erase, Option.some.injEq]
    by_cases hst : s = t
    · simp [hst]
    · rw [if_neg hst, if_neg fun h => hst h.symm]

/-- One removal drops the node and takes it off its parent's children. -/
theorem Linked.removeNode_getNode (hg : g.Linked) (id j : String) :
    (g.removeNode id).getNode j =
      if j = id then none else (g.getNode j).map (withoutChildren [id]) := by
  cases hn : g.getNode id with
  | none =>
    rw [removeNode_of_none hn]
    split_ifs with hj
    · rw [hj, hn]
    · cases hm : g.getNode j with
      | none => rfl
      | some m =>
        rw [Option.map_some, withoutChildren_of_disjoint]
        intro c hc hmem
        rw [List.mem_singleton] at hmem
        subst hmem
        obtain ⟨cn, hcn, -⟩ := (hg.children hm).mp hc
        rw [hn] at hcn
        cases hcn
  | some n =>
    rw [removeNode_of_some hn]
    by_cases hj : j = id
    · rw [if_pos hj, hj]
      exact Dict.get?_erase_self _ _
    · rw [if_neg hj]
      refine (Dict.get?_erase_of_ne _ hj).trans ?_
      -- a parent loses the child; every other node does not list it
      have hother : n.parentId ≠ some j →
          (g.getNode j).map (withoutChildren [id]) = g.getNode j := by
        intro hp
        cases hm : g.getNode j with
        | none => rfl
        | some m =>
          rw [Option.map_some, withoutChildren_of_disjoint]
          intro c hc hcid
          rw [List.mem_singleton] at hcid
          subst hcid
          obtain ⟨cn, hcn, hpc⟩ := (hg.children hm).mp hc
          rw [hn] at hcn
          cases hcn
          exact hp hpc
      cases hp : n.parentId with
      | none => exact (hother (by simp [hp])).symm
      | some p =>
        refine (Dict.get?_modify _ _ _ _).trans ?_
        by_cases hjp : j = p
        · subst hjp
          rw [if_pos rfl]
          congr 1
          funext m
          simp [withoutChildren]
        · rw [if_neg hjp, hother]
          · rfl
          · rw [hp]
            exact fun h => hjp (Option.some.inj h).symm

theorem Linked.removeNode (hg : g.Linked) (id : String) : (g.removeNode id).Linked := by
  have back : ∀ {j m}, (g.removeNode id).getNode j = some m →
      j ≠ id ∧ ∃ n, g.getNode j = some n ∧ m = withoutChildren [id] n := by
    intro j m hm
    rw [hg.removeNode_getNode] at hm
    split_ifs at hm with hj
    obtain ⟨n, hn, rfl⟩ := Option.map_eq_some_iff.mp hm
    exact ⟨hj, n, hn, rfl⟩
  have forth : ∀ {j n}, j ≠ id → g.getNode j = some n →
      (g.removeNode id).getNode j = some (withoutChildren [id] n) := by
    intro j n hj hn
    rw [hg.removeNode_getNode, if_neg hj, hn, Option.map_some]
  refine ⟨?_, ?_, ?_, ?_, ?_, ?_, ?_, ?_⟩
  · intro j m hm
    obtain ⟨-, n, hn, rfl⟩ := back hm
    change n.nodeId = j
    exact hg.keyed hn
  · intro j m hm
    obtain ⟨-, n, hn, rfl⟩ := back hm
    exact hg.nonempty hn
  · intro m hm
    rw [removeNode_rootId] at hm
    obtain ⟨-, n, hn, rfl⟩ := back hm
    change n.parentId = none ∧ n.parentReferenceId = none
    exact hg.root hn
  · intro p pm c hp
    obtain ⟨hpid, pn, hpn, rfl⟩ := back hp
    simp only [withoutChildren, List.mem_filter, hg.children hpn, List.mem_singleton,
      decide_eq_true_eq]
    constructor
    · rintro ⟨⟨cn, hcn, hpc⟩, hc⟩
      exact ⟨_, forth hc hcn, hpc⟩
    · rintro ⟨cm, hcm, hpc⟩
      obtain ⟨hc, cn, hcn, rfl⟩ := back hcm
      exact ⟨⟨cn, hcn, hpc⟩, hc⟩
  · intro p pm hp
    obtain ⟨-, pn, hpn, rfl⟩ := back hp
    exact (hg.childrenNodup hpn).filter _
  · intro s j
    cases hn : g.getNode id with
    | none => rw [removeNode_of_none hn]; exact hg.status
    | some n =>
      rw [removeNode_status g hn]
      constructor
      · intro hs
        split_ifs at hs with hns
        obtain ⟨m, hm, hms⟩ := hg.status.mp hs
        have hj : j ≠ id := by
          rintro rfl
          rw [hn] at hm
          cases hm
          exact hns hms
        exact ⟨_, forth hj hm, hms⟩
      · rintro ⟨m, hm, hms⟩
        obtain ⟨hj, k, hk, rfl⟩ := back hm
        have hs := hg.status.mpr ⟨k, hk, hms⟩
        rw [if_neg, hs]
        intro hns
        have := hg.status.mpr ⟨n, hn, hns⟩
        rw [hs] at this
        exact hj (Option.some.inj this)
  · intro s j hs
    cases hn : g.getNode id with
    | none => rw [removeNode_of_none hn] at hs ⊢; exact hg.disjoint hs
    | some n =>
      rw [removeNode_status g hn] at hs
      split_ifs at hs
      rw [hg.removeNode_getNode, hg.disjoint hs]
      simp
  · obtain ⟨rank, hrank⟩ := hg.ranked
    refine ⟨rank, ?_⟩
    intro j m p hm hp
    obtain ⟨-, n, hn, rfl⟩ := back hm
    exact hrank hn hp

theorem Linked.removeNodes (hg : g.Linked) (ids : List String) : (g.removeNodes ids).Linked := by
  unfold MessageTreeGraph.removeNodes
  induction ids generalizing g with
  | nil => exact hg
  | cons id ids ih => exact ih (hg.removeNode id)

theorem removeNodes_rootId (g : MessageTreeGraph) (ids : List String) :
    (g.removeNodes ids).rootId = g.rootId := by
  unfold removeNodes
  induction ids generalizing g with
  | nil => rfl
  | cons id ids ih => rw [List.foldl_cons, ih, removeNode_rootId]

theorem removeNodes_identity (g : MessageTreeGraph) (ids : List String) :
    (g.removeNodes ids).identity = g.identity := by
  unfold removeNodes
  induction ids generalizing g with
  | nil => rfl
  | cons id ids ih => rw [List.foldl_cons, ih, removeNode_identity]

/-- After removing a set, its nodes are gone and the others only lose children. -/
theorem Linked.removeNodes_getNode (hg : g.Linked) (ids : List String) (j : String) :
    (g.removeNodes ids).getNode j =
      if j ∈ ids then none else (g.getNode j).map (withoutChildren ids) := by
  unfold MessageTreeGraph.removeNodes
  induction ids generalizing g with
  | nil =>
    have hid : withoutChildren [] = id := funext fun n => withoutChildren_of_disjoint (by simp)
    rw [if_neg List.not_mem_nil, hid, Option.map_id, id, List.foldl_nil]
  | cons id ids ih =>
    rw [List.foldl_cons, ih (hg.removeNode id), hg.removeNode_getNode]
    by_cases hj : j = id
    · simp [hj]
    · simp only [List.mem_cons, hj, false_or, if_false]
      split_ifs
      · rfl
      · rw [Option.map_map]
        congr 1
        funext n
        exact withoutChildren_withoutChildren [id] ids n

/-! ## Clearing a status -/

theorem clearStatus_of_status {id s : String} {n : MessageNode} (hn : g.getNode id = some n)
    (hs : n.statusMessageId = some s) :
    g.clearStatus id =
      { g with
        nodes := g.nodes.modify id MessageNode.clearStatus
        statusToNode := g.statusToNode.erase s } := by
  simp only [clearStatus, hn, hs]

theorem clearStatus_of_noStatus {id : String}
    (h : ∀ n, g.getNode id = some n → n.statusMessageId = none) : g.clearStatus id = g := by
  unfold clearStatus
  cases hn : g.getNode id with
  | none => rfl
  | some n => simp only [h n hn]

theorem getNode_clearStatus (g : MessageTreeGraph) (id j : String) :
    (g.clearStatus id).getNode j =
      if j = id then (g.getNode id).map fun n =>
        if n.statusMessageId.isSome then n.clearStatus else n
      else g.getNode j := by
  by_cases hst : ∀ n, g.getNode id = some n → n.statusMessageId = none
  · rw [clearStatus_of_noStatus hst]
    split_ifs with hj
    · subst hj
      cases hn : g.getNode j with
      | none => rfl
      | some n => simp [hst n hn]
    · rfl
  · push Not at hst
    obtain ⟨n, hn, hne⟩ := hst
    obtain ⟨s, hs⟩ := Option.ne_none_iff_exists'.mp hne
    rw [clearStatus_of_status hn hs]
    refine (Dict.get?_modify _ _ _ _).trans ?_
    split_ifs with hj
    · change (g.getNode id).map _ = _
      simp [hn, hs]
    · rfl

theorem clearStatus_rootId (g : MessageTreeGraph) (id : String) :
    (g.clearStatus id).rootId = g.rootId := by
  unfold clearStatus
  split
  · rfl
  · split <;> rfl

theorem clearStatus_identity (g : MessageTreeGraph) (id : String) :
    (g.clearStatus id).identity = g.identity := by
  unfold clearStatus
  split
  · rfl
  · split <;> rfl

theorem Linked.clearStatus (hg : g.Linked) (id : String) : (g.clearStatus id).Linked := by
  cases hn : g.getNode id with
  | none => simpa [MessageTreeGraph.clearStatus, hn] using hg
  | some n =>
  cases hs : n.statusMessageId with
  | none => simpa [MessageTreeGraph.clearStatus, hn, hs] using hg
  | some s =>
  have back : ∀ {j m}, (g.clearStatus id).getNode j = some m →
      ∃ k, g.getNode j = some k ∧ m.nodeId = k.nodeId ∧ m.parentId = k.parentId ∧
        m.parentReferenceId = k.parentReferenceId ∧ m.childrenIds = k.childrenIds ∧
        m.statusMessageId = if j = id then none else k.statusMessageId := by
    intro j m hm
    rw [getNode_clearStatus] at hm
    split_ifs at hm with hj
    · subst hj
      simp only [hn, hs, Option.map_some, Option.some.injEq, Option.isSome_some, if_true] at hm
      subst hm
      exact ⟨n, hn, rfl, rfl, rfl, rfl, by simp⟩
    · exact ⟨m, hm, rfl, rfl, rfl, rfl, by simp [hj]⟩
  have forth : ∀ {j k}, g.getNode j = some k → ∃ m, (g.clearStatus id).getNode j = some m ∧
      m.parentId = k.parentId ∧
        m.statusMessageId = if j = id then none else k.statusMessageId := by
    intro j k hk
    rw [getNode_clearStatus]
    split_ifs with hj
    · subst hj
      rw [hn] at hk
      cases hk
      exact ⟨n.clearStatus, by simp [hn, hs], rfl, rfl⟩
    · exact ⟨k, hk, rfl, rfl⟩
  have hidx : ∀ t, (g.clearStatus id).statusToNode.get? t =
      if t = s then none else g.statusToNode.get? t := by
    intro t
    rw [clearStatus_of_status hn hs]
    exact Dict.get?_erase _ _ _
  refine ⟨?_, ?_, ?_, ?_, ?_, ?_, ?_, ?_⟩
  · intro j m hm
    obtain ⟨k, hk, e, -⟩ := back hm
    rw [e, hg.keyed hk]
  · intro j m hm
    obtain ⟨k, hk, -⟩ := back hm
    exact hg.nonempty hk
  · intro m hm
    rw [clearStatus_rootId] at hm
    obtain ⟨k, hk, -, e1, e2, -⟩ := back hm
    rw [e1, e2]
    exact hg.root hk
  · intro p pm c hp
    obtain ⟨pn, hpn, -, -, -, e, -⟩ := back hp
    rw [e, hg.children hpn]
    constructor
    · rintro ⟨cn, hcn, hpc⟩
      obtain ⟨cm, hcm, e, -⟩ := forth hcn
      exact ⟨cm, hcm, e.trans hpc⟩
    · rintro ⟨cm, hcm, hpc⟩
      obtain ⟨cn, hcn, -, e, -⟩ := back hcm
      exact ⟨cn, hcn, e.symm.trans hpc⟩
  · intro p pm hp
    obtain ⟨pn, hpn, -, -, -, e, -⟩ := back hp
    rw [e]
    exact hg.childrenNodup hpn
  · intro t j
    rw [hidx]
    constructor
    · intro ht
      split_ifs at ht with hts
      obtain ⟨k, hk, hkt⟩ := hg.status.mp ht
      obtain ⟨m, hm, -, e⟩ := forth hk
      refine ⟨m, hm, ?_⟩
      rw [e, if_neg, hkt]
      rintro rfl
      rw [hn] at hk
      cases hk
      rw [hs] at hkt
      exact hts (Option.some.inj hkt).symm
    · rintro ⟨m, hm, hmt⟩
      obtain ⟨k, hk, -, -, -, -, e⟩ := back hm
      rw [e] at hmt
      split_ifs at hmt with hj
      have ht := hg.status.mpr ⟨k, hk, hmt⟩
      rw [if_neg, ht]
      rintro rfl
      have := hg.status.mpr ⟨n, hn, hs⟩
      rw [ht] at this
      exact hj (Option.some.inj this)
  · intro t j ht
    rw [hidx] at ht
    split_ifs at ht
    cases hm : (g.clearStatus id).getNode t with
    | none => rfl
    | some m =>
      obtain ⟨k, hk, -⟩ := back hm
      rw [hg.disjoint ht] at hk
      cases hk
  · obtain ⟨rank, hrank⟩ := hg.ranked
    refine ⟨rank, ?_⟩
    intro j m p hm hp
    obtain ⟨k, hk, -, e, -⟩ := back hm
    exact hrank hk (e.symm.trans hp)

end MessageTreeGraph

end Switchboard.Messaging
