import Switchboard.Messaging.GraphMutation

/-!
# Adding a reply and removing a literal reply subtree

The two mutations that change the set of nodes. A new reply is a leaf below an
existing parent. A removed set is closed under replies, so each surviving node
keeps the message it replies to.
-/

namespace Switchboard.Messaging

namespace MessageTreeGraph

variable {g h : MessageTreeGraph}

/-! ## The root -/

/-- A graph that is not empty still has its root. -/
theorem WellFormed.root_exists (hg : g.WellFormed) {id : String} {n : MessageNode}
    (hn : g.getNode id = some n) : ∃ r, g.getNode g.rootId = some r :=
  (hg.below_root hg.parentsPresent hn).1

theorem new_ok {root : MessageNode} (h : new root = .ok g) :
    root.statusMessageId ≠ some root.nodeId ∧ g.rootId = root.nodeId ∧
      g.identity = ⟨root.scope, root.nodeId⟩ ∧
      (∀ j, g.getNode j = if j = root.nodeId then some root else none) ∧
      ∀ s, g.statusToNode.get? s =
        if root.statusMessageId = some s then some root.nodeId else none := by
  unfold new at h
  split_ifs at h with hst
  cases h
  refine ⟨hst, rfl, rfl, ?_, ?_⟩
  · intro j
    exact Dict.get?_set _ _ _ _
  · intro s
    cases hs : root.statusMessageId with
    | none => rfl
    | some t =>
      refine (Dict.get?_set _ _ _ _).trans ?_
      simp [eq_comm]

/-- A node that can start a tree: no parent, no children, a proper id. -/
structure RootNode (root : MessageNode) : Prop where
  nonempty : root.nodeId ≠ ""
  noParent : root.parentId = none ∧ root.parentReferenceId = none
  noChildren : root.childrenIds = []

theorem wellFormed_new {root : MessageNode} (hroot : RootNode root) (h : new root = .ok g) :
    g.WellFormed := by
  obtain ⟨hst, hid, -, hnode, hidx⟩ := new_ok h
  have back : ∀ {j n}, g.getNode j = some n → j = root.nodeId ∧ n = root := by
    intro j n hn
    rw [hnode] at hn
    split_ifs at hn with hj
    exact ⟨hj, (Option.some.inj hn).symm⟩
  refine ⟨⟨?_, ?_, ?_, ?_, ?_, ?_, ?_, ?_⟩, ?_⟩
  · intro j n hn
    obtain ⟨rfl, rfl⟩ := back hn
    rfl
  · intro j n hn
    obtain ⟨rfl, rfl⟩ := back hn
    exact hroot.nonempty
  · intro n hn
    obtain ⟨-, rfl⟩ := back hn
    exact hroot.noParent
  · intro p pn c hp
    obtain ⟨-, rfl⟩ := back hp
    rw [hroot.noChildren]
    constructor
    · intro hc
      cases hc
    · rintro ⟨cn, hcn, hpar⟩
      obtain ⟨-, rfl⟩ := back hcn
      rw [hroot.noParent.1] at hpar
      cases hpar
  · intro p pn hp
    obtain ⟨-, rfl⟩ := back hp
    rw [hroot.noChildren]
    exact List.nodup_nil
  · intro s j
    rw [hidx]
    constructor
    · intro hs
      split_ifs at hs with hsr
      cases hs
      exact ⟨root, by rw [hnode, if_pos rfl], hsr⟩
    · rintro ⟨n, hn, hs⟩
      obtain ⟨rfl, rfl⟩ := back hn
      rw [if_pos hs]
  · intro s j hs
    rw [hidx] at hs
    split_ifs at hs with hsr
    rw [hnode, if_neg]
    rintro rfl
    exact hst hsr
  · refine ⟨fun _ => 0, ?_⟩
    intro j n p hn hp
    obtain ⟨-, rfl⟩ := back hn
    rw [hroot.noParent.1] at hp
    cases hp
  · intro j n hn hj
    obtain ⟨rfl, -⟩ := back hn
    exact absurd hid.symm hj

/-! ## Adding a reply -/

section AddNode

variable {nodeId prompt statusMessageId parentId parentReferenceId : String} {scope : MessageScope}

/-- The node `add_node` creates. -/
def newReply (nodeId : String) (scope : MessageScope)
    (prompt statusMessageId parentId parentReferenceId : String) : MessageNode :=
  { nodeId := nodeId, scope := scope, prompt := prompt,
    statusMessageId := some statusMessageId, state := .pending,
    parentId := some parentId, parentReferenceId := some parentReferenceId }

/-- Everything `add_node` checks and does when it returns. -/
structure Added (g : MessageTreeGraph) (nodeId : String) (scope : MessageScope)
    (prompt statusMessageId parentId parentReferenceId : String) (g' : MessageTreeGraph) :
    Prop where
  rootId : g'.rootId = g.rootId
  identity : g'.identity = g.identity
  sameScope : scope = g.identity.scope
  parent : ∃ pn, g.getNode parentId = some pn
  reference : (g.resolveReference parentReferenceId).map (·.1.nodeId) = some parentId
  freshNode : g.getNode nodeId = none
  freshNodeStatus : g.statusToNode.get? nodeId = none
  distinct : statusMessageId ≠ nodeId
  freshStatus : g.statusToNode.get? statusMessageId = none
  freshStatusNode : g.getNode statusMessageId = none
  node : ∀ j, g'.getNode j =
    if j = nodeId then
      some (newReply nodeId scope prompt statusMessageId parentId parentReferenceId)
    else if j = parentId then
      (g.getNode j).map fun p => { p with childrenIds := p.childrenIds ++ [nodeId] }
    else g.getNode j
  status : ∀ s, g'.statusToNode.get? s =
    if s = statusMessageId then some nodeId else g.statusToNode.get? s

theorem addNode_ok
    (h : g.addNode nodeId scope prompt statusMessageId parentId parentReferenceId = .ok h') :
    g.Added nodeId scope prompt statusMessageId parentId parentReferenceId h' := by
  unfold addNode at h
  split_ifs at h with h1 h2 h3 h4 h5 h6 h7 h8
  rw [Bool.not_eq_false, Dict.contains_iff] at h2
  simp only [Dict.contains, Bool.not_eq_true, Option.isSome_eq_false_iff,
    Option.isNone_iff_eq_none] at h4 h6 h7 h8
  obtain ⟨pn, hpn⟩ := h2
  cases h
  refine ⟨rfl, rfl, not_not.mp h1, ⟨pn, hpn⟩, not_not.mp h3, h4, h6, h5, h7, h8, ?_, ?_⟩
  · intro j
    refine (Dict.get?_modify _ _ _ _).trans ?_
    by_cases hj : j = nodeId
    · subst hj
      have hjp : j ≠ parentId := by
        rintro rfl
        rw [hpn] at h4
        cases h4
      simp [hjp, newReply]
    · by_cases hjp : j = parentId
      · subst hjp
        rw [if_pos rfl, if_neg hj, if_pos rfl, Dict.get?_set_of_ne _ _ hj]
        rfl
      · rw [if_neg hjp, if_neg hj, if_neg hjp, Dict.get?_set_of_ne _ _ hj]
        rfl
  · intro s
    exact Dict.get?_set _ _ _ _

theorem Added.ne_parent {g' : MessageTreeGraph}
    (ha : g.Added nodeId scope prompt statusMessageId parentId parentReferenceId g') :
    parentId ≠ nodeId := by
  rintro rfl
  obtain ⟨pn, hpn⟩ := ha.parent
  rw [ha.freshNode] at hpn
  cases hpn

theorem Added.node_new {g' : MessageTreeGraph}
    (ha : g.Added nodeId scope prompt statusMessageId parentId parentReferenceId g') :
    g'.getNode nodeId =
      some (newReply nodeId scope prompt statusMessageId parentId parentReferenceId) := by
  rw [ha.node, if_pos rfl]

/-- An old node keeps everything but, for the parent, its list of children. -/
theorem Added.node_old {g' : MessageTreeGraph}
    (ha : g.Added nodeId scope prompt statusMessageId parentId parentReferenceId g')
    {j : String} {n : MessageNode} (hn : g.getNode j = some n) :
    j ≠ nodeId ∧ g'.getNode j = some { n with
      childrenIds := if j = parentId then n.childrenIds ++ [nodeId] else n.childrenIds } := by
  have hj : j ≠ nodeId := by
    rintro rfl
    rw [ha.freshNode] at hn
    cases hn
  refine ⟨hj, ?_⟩
  rw [ha.node, if_neg hj]
  split_ifs
  · rw [hn]
    rfl
  · exact hn

theorem Added.node_back {g' : MessageTreeGraph}
    (ha : g.Added nodeId scope prompt statusMessageId parentId parentReferenceId g')
    {j : String} {m : MessageNode} (hm : g'.getNode j = some m) :
    j = nodeId ∧ m = newReply nodeId scope prompt statusMessageId parentId parentReferenceId ∨
      ∃ n, g.getNode j = some n ∧ m = { n with
        childrenIds := if j = parentId then n.childrenIds ++ [nodeId] else n.childrenIds } := by
  by_cases hj : j = nodeId
  · subst hj
    rw [ha.node_new] at hm
    exact Or.inl ⟨rfl, (Option.some.inj hm).symm⟩
  · have hold := hm
    rw [ha.node, if_neg hj] at hold
    obtain ⟨n, hn⟩ : ∃ n, g.getNode j = some n := by
      split_ifs at hold
      · obtain ⟨n, hn, -⟩ := Option.map_eq_some_iff.mp hold
        exact ⟨n, hn⟩
      · exact ⟨m, hold⟩
    have hn' := (ha.node_old hn).2
    rw [hm] at hn'
    exact Or.inr ⟨n, hn, Option.some.inj hn'⟩

/-- A leaf added below a present parent keeps links and indexes. -/
theorem Linked.added (hg : g.Linked) (hpres : g.ParentsPresent) {g' : MessageTreeGraph}
    (ha : g.Added nodeId scope prompt statusMessageId parentId parentReferenceId g')
    (hne : nodeId ≠ "") : g'.Linked := by
  obtain ⟨pn, hpn⟩ := ha.parent
  have hroot : nodeId ≠ g.rootId := by
    rintro rfl
    obtain ⟨⟨r, hr⟩, -⟩ := hg.below_root hpres hpn
    rw [ha.freshNode] at hr
    cases hr
  -- no old node has the new one as its parent
  have hnochild : ∀ {c cn}, g.getNode c = some cn → cn.parentId ≠ some nodeId := by
    intro c cn hc hp
    by_cases hcr : c = g.rootId
    · subst hcr
      rw [(hg.root hc).1] at hp
      cases hp
    · obtain ⟨p, pn, hp', hpn⟩ := hpres hc hcr
      rw [hp] at hp'
      cases hp'
      rw [ha.freshNode] at hpn
      cases hpn
  refine ⟨?_, ?_, ?_, ?_, ?_, ?_, ?_, ?_⟩
  · intro j m hm
    rcases ha.node_back hm with ⟨rfl, rfl⟩ | ⟨n, hn, rfl⟩
    · rfl
    · exact (hg.keyed hn :)
  · intro j m hm
    rcases ha.node_back hm with ⟨rfl, rfl⟩ | ⟨n, hn, rfl⟩
    · exact hne
    · exact hg.nonempty hn
  · intro m hm
    rw [ha.rootId] at hm
    rcases ha.node_back hm with ⟨hid, -⟩ | ⟨n, hn, rfl⟩
    · exact absurd hid.symm hroot
    · exact (hg.root hn :)
  · intro p pm c hp
    rcases ha.node_back hp with ⟨rfl, rfl⟩ | ⟨n, hn, rfl⟩
    · constructor
      · intro hc
        cases hc
      · rintro ⟨cm, hcm, hpc⟩
        rcases ha.node_back hcm with ⟨-, rfl⟩ | ⟨cn, hcn, rfl⟩
        · exact absurd (Option.some.inj hpc) ha.ne_parent
        · exact ((hnochild hcn :) hpc).elim
    · have hold : c ∈ n.childrenIds ↔ ∃ cn, g.getNode c = some cn ∧ cn.parentId = some p :=
        hg.children hn
      have hmem : (c ∈ if p = parentId then n.childrenIds ++ [nodeId] else n.childrenIds) ↔
          c ∈ n.childrenIds ∨ p = parentId ∧ c = nodeId := by
        by_cases hpp : p = parentId <;> simp [hpp]
      refine hmem.trans ?_
      rw [hold]
      constructor
      · rintro (⟨cn, hcn, hpc⟩ | ⟨rfl, rfl⟩)
        · exact ⟨_, (ha.node_old hcn).2, hpc⟩
        · exact ⟨_, ha.node_new, rfl⟩
      · rintro ⟨cm, hcm, hpc⟩
        rcases ha.node_back hcm with ⟨rfl, rfl⟩ | ⟨cn, hcn, rfl⟩
        · exact Or.inr ⟨(Option.some.inj hpc).symm, rfl⟩
        · exact Or.inl ⟨cn, hcn, hpc⟩
  · intro p pm hp
    rcases ha.node_back hp with ⟨rfl, rfl⟩ | ⟨n, hn, rfl⟩
    · exact List.nodup_nil
    · have hfresh : nodeId ∉ n.childrenIds := by
        rw [hg.children hn]
        rintro ⟨cn, hcn, -⟩
        rw [ha.freshNode] at hcn
        cases hcn
      change (if p = parentId then n.childrenIds ++ [nodeId] else n.childrenIds).Nodup
      split_ifs
      · exact (hg.childrenNodup hn).append (List.nodup_singleton _)
          (List.disjoint_singleton.mpr hfresh)
      · exact hg.childrenNodup hn
  · intro s j
    rw [ha.status]
    constructor
    · intro hs
      split_ifs at hs with hss
      · cases hs
        exact ⟨_, ha.node_new, congrArg some hss.symm⟩
      · obtain ⟨n, hn, hns⟩ := hg.status.mp hs
        exact ⟨_, (ha.node_old hn).2, hns⟩
    · rintro ⟨m, hm, hms⟩
      rcases ha.node_back hm with ⟨rfl, rfl⟩ | ⟨n, hn, rfl⟩
      · rw [if_pos (Option.some.inj hms).symm]
      · have hs := hg.status.mpr ⟨n, hn, hms⟩
        rw [if_neg, hs]
        rintro rfl
        rw [ha.freshStatus] at hs
        cases hs
  · intro s j hs
    rw [ha.status] at hs
    rw [ha.node]
    have hsn : s ≠ nodeId := by
      rintro rfl
      split_ifs at hs with hss
      · exact ha.distinct hss.symm
      · rw [ha.freshNodeStatus] at hs
        cases hs
    have hnone : g.getNode s = none := by
      split_ifs at hs with hss
      · rw [hss]
        exact ha.freshStatusNode
      · exact hg.disjoint hs
    rw [if_neg hsn, hnone]
    simp
  · obtain ⟨rank, hrank⟩ := hg.ranked
    refine ⟨fun j => if j = nodeId then rank parentId + 1 else rank j, ?_⟩
    intro j m p hm hp
    rcases ha.node_back hm with ⟨rfl, rfl⟩ | ⟨n, hn, rfl⟩
    · cases hp
      simp [ha.ne_parent]
    · have hpn' : p ≠ nodeId := by
        rintro rfl
        exact hnochild hn hp
      simp only [hpn', (ha.node_old hn).1, if_false]
      exact hrank hn hp

theorem WellFormed.added (hg : g.WellFormed) {g' : MessageTreeGraph}
    (ha : g.Added nodeId scope prompt statusMessageId parentId parentReferenceId g')
    (hne : nodeId ≠ "") : g'.WellFormed where
  toLinked := hg.toLinked.added hg.parentsPresent ha hne
  parent := by
    obtain ⟨pn, hpn⟩ := ha.parent
    intro j m hm hj
    rw [ha.rootId] at hj
    rcases ha.node_back hm with ⟨rfl, rfl⟩ | ⟨n, hn, rfl⟩
    · refine ⟨parentId, _, parentReferenceId, rfl, (ha.node_old hpn).2, rfl, ?_⟩
      exact (hg.resolves_to_iff hpn).mp ha.reference
    · obtain ⟨p, pn', r, hp, hpn', hr, hrp⟩ := hg.parent hn hj
      exact ⟨p, _, r, hp, (ha.node_old hpn').2, hr, hrp⟩

end AddNode

/-! ## Removing a literal reply subtree -/

theorem SameShape.mem_referenceChildren (hg : g.Linked) (hh : h.Linked) (hs : g.SameShape h)
    {ref c : String} : c ∈ h.referenceChildren ref ↔ c ∈ g.referenceChildren ref := by
  rw [hg.mem_referenceChildren, hh.mem_referenceChildren]
  constructor
  · rintro (⟨m, hm, hms⟩ | ⟨m, hm, hmr⟩)
    · obtain ⟨n, hn, hl⟩ := hs.node_back hm
      exact Or.inl ⟨n, hn, hl.status.symm.trans hms⟩
    · obtain ⟨n, hn, hl⟩ := hs.node_back hm
      exact Or.inr ⟨n, hn, hl.reference.symm.trans hmr⟩
  · rintro (⟨n, hn, hns⟩ | ⟨n, hn, hnr⟩)
    · obtain ⟨m, hm, hl⟩ := hs.node _ _ hn
      exact Or.inl ⟨m, hm, hl.status.trans hns⟩
    · obtain ⟨m, hm, hl⟩ := hs.node _ _ hn
      exact Or.inr ⟨m, hm, hl.reference.trans hnr⟩

theorem SameShape.descends (hg : g.Linked) (hh : h.Linked) (hs : g.SameShape h) {v w : String} :
    Descends h.referenceChildren v w ↔ Descends g.referenceChildren v w := by
  have hrel : (fun v w => w ∈ h.referenceChildren v) = fun v w => w ∈ g.referenceChildren v :=
    funext₂ fun _ _ => propext (hs.mem_referenceChildren hg hh)
  unfold Descends
  rw [hrel]

/-- A reference resolves to the same node and in the same way. -/
theorem SameShape.resolve (hg : g.Linked) (hh : h.Linked) (hs : g.SameShape h) {ref : String}
    {n : MessageNode} {kind : MessageReferenceKind}
    (hr : g.resolveReference ref = some (n, kind)) :
    ∃ m, h.resolveReference ref = some (m, kind) ∧ m.nodeId = n.nodeId := by
  obtain ⟨hn, hkind⟩ := hg.resolve_cases hr
  obtain ⟨m, hm, hl⟩ := hs.node _ _ hn
  refine ⟨m, ?_, hl.nodeId⟩
  rcases hkind with ⟨rfl, rfl⟩ | ⟨rfl, hst⟩
  · exact Linked.resolve_prompt hm
  · exact hh.resolve_status hm (hl.status.trans hst)

/-- `removed` is closed under replies: with a message it holds every prompt node
that replies to it or to its status. -/
def ClosedUnderReplies (g : MessageTreeGraph) (removed : String → Prop) : Prop :=
  ∀ {ref c}, removed ref → c ∈ g.referenceChildren ref → removed c

/-- Dropping the prompt nodes of a set closed under replies, and the status of
some nodes whose status is in the set, keeps the graph well formed. -/
theorem WellFormed.removeSubtree (hg : g.WellFormed) {removed : String → Prop}
    (hclosed : g.ClosedUnderReplies removed) {ids : List String}
    (hids : ∀ {j n}, g.getNode j = some n → (j ∈ ids ↔ removed j)) (hh : h.Linked)
    (hroot : h.rootId = g.rootId)
    (hback : ∀ {j m}, h.getNode j = some m → ∃ n, g.getNode j = some n ∧
      m.parentId = n.parentId ∧ m.parentReferenceId = n.parentReferenceId)
    (hforth : ∀ {j n}, g.getNode j = some n → ∃ m, h.getNode j = some m ∧
      ∀ s, n.statusMessageId = some s → m.statusMessageId = some s ∨ removed s) :
    (h.removeNodes ids).WellFormed where
  toLinked := hh.removeNodes ids
  parent := by
    intro j k hk hj
    rw [removeNodes_rootId, hroot] at hj
    rw [hh.removeNodes_getNode] at hk
    split_ifs at hk with hjids
    obtain ⟨m, hm, rfl⟩ := Option.map_eq_some_iff.mp hk
    obtain ⟨n, hn, hpar, href⟩ := hback hm
    obtain ⟨p, pn, r, hp, hpn, hr, hrp⟩ := hg.parent hn hj
    have hreply : j ∈ g.referenceChildren r := hg.mem_referenceChildren.mpr (Or.inr ⟨n, hn, hr⟩)
    have hsurvives : ¬ removed r := fun hrem => hjids ((hids hn).mpr (hclosed hrem hreply))
    obtain ⟨pm, hpm, hps⟩ := hforth hpn
    have hpids : p ∉ ids := by
      intro hmem
      have hrem := (hids hpn).mp hmem
      rcases hrp with rfl | hs
      · exact hsurvives hrem
      · exact hsurvives (hclosed hrem (hg.mem_referenceChildren.mpr (Or.inl ⟨pn, hpn, hs⟩)))
    refine ⟨p, withoutChildren ids pm, r, hpar.trans hp, ?_, href.trans hr, ?_⟩
    · rw [hh.removeNodes_getNode, if_neg hpids, hpm]
      rfl
    · rcases hrp with rfl | hs
      · exact Or.inl rfl
      · exact Or.inr ((hps r hs).resolve_right hsurvives)

theorem WellFormed.clearStatusAndRemove (hg : g.WellFormed) {ref : String} {owner : MessageNode}
    {kind : MessageReferenceKind} (hres : g.resolveReference ref = some (owner, kind))
    {ids : List String}
    (hids : ∀ {j n}, g.getNode j = some n → (j ∈ ids ↔ Descends g.referenceChildren ref j)) :
    ((if kind = .status then g.clearStatus owner.nodeId else g).removeNodes ids).WellFormed := by
  have hclosed : g.ClosedUnderReplies (Descends g.referenceChildren ref) :=
    fun hd hc => hd.tail hc
  obtain ⟨hown, ⟨rfl, -⟩ | ⟨rfl, hs⟩⟩ := hg.resolve_cases hres
  · exact hg.removeSubtree hclosed hids hg.toLinked rfl (fun hm => ⟨_, hm, rfl, rfl⟩)
      fun hn => ⟨_, hn, fun s hs => Or.inl hs⟩
  · rw [if_pos rfl]
    refine hg.removeSubtree hclosed hids (hg.toLinked.clearStatus _) (clearStatus_rootId _ _)
      ?_ ?_
    · intro j m hm
      rw [getNode_clearStatus] at hm
      split_ifs at hm with hj
      · subst hj
        rw [hown] at hm
        simp only [Option.map_some, Option.some.injEq] at hm
        refine ⟨owner, hown, ?_⟩
        rw [← hm]
        split_ifs <;> exact ⟨rfl, rfl⟩
      · exact ⟨m, hm, rfl, rfl⟩
    · intro j n hn
      rw [getNode_clearStatus]
      split_ifs with hj
      · subst hj
        rw [hown] at hn
        cases hn
        refine ⟨_, by rw [hown]; rfl, ?_⟩
        intro s hs'
        rw [hs] at hs'
        cases hs'
        exact Or.inr .refl
      · exact ⟨n, hn, fun s hs' => Or.inl hs'⟩

end MessageTreeGraph

end Switchboard.Messaging
