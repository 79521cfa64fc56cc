import Switchboard.Messaging.GraphOrder

/-!
# The index of the references

The map from scoped references to trees is kept by separate calls next to every
change of a tree. After each lock section it holds the prompt ids and the status
ids of the published trees, and nothing else.
-/

namespace Switchboard.Messaging

namespace MessageTreeGraph

variable {g h : MessageTreeGraph} {ref : String}

/-- `ref` is a prompt id or a status id of the graph. -/
def HasReference (g : MessageTreeGraph) (ref : String) : Prop :=
  ∃ id n, g.getNode id = some n ∧ (ref = id ∨ n.statusMessageId = some ref)

theorem SameShape.hasReference (hs : g.SameShape h) : h.HasReference ref ↔ g.HasReference ref := by
  constructor
  · rintro ⟨id, m, hm, href⟩
    obtain ⟨n, hn, hl⟩ := hs.node_back hm
    exact ⟨id, n, hn, by rwa [← hl.status]⟩
  · rintro ⟨id, n, hn, href⟩
    obtain ⟨m, hm, hl⟩ := hs.node id n hn
    exact ⟨id, m, hm, by rwa [hl.status]⟩

theorem Added.hasReference {nodeId prompt statusMessageId parentId parentReferenceId : String}
    {scope : MessageScope}
    (ha : g.Added nodeId scope prompt statusMessageId parentId parentReferenceId h) :
    h.HasReference ref ↔ g.HasReference ref ∨ ref = nodeId ∨ ref = statusMessageId := by
  constructor
  · rintro ⟨id, m, hm, href⟩
    rcases ha.node_back hm with ⟨rfl, rfl⟩ | ⟨n, hn, rfl⟩
    · exact Or.inr (href.imp_right fun h => (Option.some.inj h).symm)
    · exact Or.inl ⟨id, n, hn, href⟩
  · rintro (⟨id, n, hn, href⟩ | href)
    · exact ⟨id, _, (ha.node_old hn).2, href⟩
    · exact ⟨nodeId, _, ha.node_new, href.imp_right fun h => congrArg some h.symm⟩

end MessageTreeGraph

namespace MessageTree

variable {t t' : MessageTree} {waiting : String → Prop} {ref : String}

/-- A removal takes the references it reports and no others. -/
theorem RemovesSubtree.hasReference {r : MessageSubtreeRemoval} (hg : t.graph.WellFormed)
    (hr : t.RemovesSubtree ref r t') (s : String) :
    t'.graph.HasReference s ↔ t.graph.HasReference s ∧ s ∉ r.removedMessageIds := by
  -- a survivor keeps its status unless that is the reference itself
  have hstatus : ∀ {id n s}, t.graph.getNode id = some n → id ∉ r.removedMessageIds →
      ((t.survivor ref r.removedMessageIds n).statusMessageId = some s ↔
        n.statusMessageId = some s ∧ s ∉ r.removedMessageIds) := by
    intro id n s hn hid
    have hbelow : n.statusMessageId = some s → s ∈ r.removedMessageIds →
        t.graph.resolveReference ref = some (n, .status) := by
      intro hns hs
      obtain ⟨hres, hdesc⟩ := (hr.removed s).mp hs
      have hno : t.graph.getNode s = none := hg.disjoint (hg.status.mpr ⟨n, hn, hns⟩)
      rcases Relation.ReflTransGen.cases_tail hdesc with rfl | ⟨a, ha, hlast⟩
      · obtain ⟨⟨m, kind⟩, hm⟩ := Option.isSome_iff_exists.mp hres
        obtain ⟨hown, hkind⟩ := hg.resolve_cases hm
        cases kind with
        | prompt =>
          obtain ⟨-, rfl⟩ := hkind.resolve_right (by simp)
          rw [hno] at hown
          cases hown
        | status =>
          obtain ⟨-, hms⟩ := hkind.resolve_left (by simp)
          have hmid : m.nodeId = id := Option.some.inj
            ((hg.status.mpr ⟨m, hown, hms⟩).symm.trans (hg.status.mpr ⟨n, hn, hns⟩))
          rw [hmid, hn] at hown
          rw [hm, Option.some.inj hown]
      · refine absurd ((hr.removed id).mpr ⟨hres, ?_⟩) hid
        rcases (hr.links a s).mp hlast with ⟨m, hm, hms⟩ | ⟨m, hm, -⟩
        · have haid : a = id := Option.some.inj
            ((hg.status.mpr ⟨m, hm, hms⟩).symm.trans (hg.status.mpr ⟨n, hn, hns⟩))
          exact haid ▸ ha
        · rw [hno] at hm
          cases hm
    by_cases hres : t.graph.resolveReference ref = some (n, .status)
    · have hnref : n.statusMessageId = some ref :=
        ((hg.resolve_cases hres).2.resolve_left (by simp)).2
      have href : ref ∈ r.removedMessageIds :=
        (hr.removed ref).mpr ⟨by rw [hres]; rfl, .refl⟩
      simp only [survivor, hres, if_true, MessageTreeGraph.withoutChildren_statusMessageId]
      constructor
      · intro h
        cases h
      · rintro ⟨hns, hs⟩
        rw [hnref] at hns
        cases hns
        exact absurd href hs
    · simp only [survivor, hres, if_false, MessageTreeGraph.withoutChildren_statusMessageId]
      exact ⟨fun hns => ⟨hns, fun hs => hres (hbelow hns hs)⟩, And.left⟩
  have hback : ∀ {id m}, t'.graph.getNode id = some m → id ∉ r.removedMessageIds ∧
      ∃ n, t.graph.getNode id = some n ∧ m = t.survivor ref r.removedMessageIds n := by
    intro id m hm
    have hkey : id ∈ t'.graph.nodes.keys := Dict.mem_keys.mpr ⟨m, hm⟩
    rw [hr.order, List.mem_filter, decide_eq_true_eq] at hkey
    obtain ⟨n, hn⟩ := Dict.mem_keys.mp hkey.1
    have hm' := hr.survivors id n hn hkey.2
    rw [hm] at hm'
    exact ⟨hkey.2, n, hn, Option.some.inj hm'⟩
  constructor
  · rintro ⟨id, m, hm, hs⟩
    obtain ⟨hid, n, hn, rfl⟩ := hback hm
    rcases hs with rfl | hs
    · exact ⟨⟨_, n, hn, Or.inl rfl⟩, hid⟩
    · obtain ⟨hns, hnot⟩ := (hstatus hn hid).mp hs
      exact ⟨⟨id, n, hn, Or.inr hns⟩, hnot⟩
  · rintro ⟨⟨id, n, hn, hs⟩, hnot⟩
    rcases hs with rfl | hns
    · exact ⟨_, _, hr.survivors _ n hn hnot, Or.inl rfl⟩
    · have hid : id ∉ r.removedMessageIds := by
        intro hid
        obtain ⟨hres, hdesc⟩ := (hr.removed id).mp hid
        exact hnot ((hr.removed s).mpr
          ⟨hres, hdesc.tail ((hr.links id s).mpr (Or.inl ⟨n, hn, hns⟩))⟩)
      exact ⟨id, _, hr.survivors id n hn hid, Or.inr ((hstatus hn hid).mpr ⟨hns, hnot⟩)⟩

theorem new_hasReference {root : MessageNode} (h : MessageTree.new root = .ok t) :
    t.graph.HasReference ref ↔ ref = root.nodeId ∨ root.statusMessageId = some ref := by
  obtain ⟨g, hg, rfl⟩ := new_ok h
  obtain ⟨-, -, -, hnode, -⟩ := MessageTreeGraph.new_ok hg
  constructor
  · rintro ⟨id, n, hn, href⟩
    rw [hnode] at hn
    split_ifs at hn with hid
    cases hn
    rwa [hid] at href
  · exact fun href => ⟨root.nodeId, root, by rw [hnode, if_pos rfl], href⟩

/-! ## The references of a snapshot -/

theorem optionalId_toStr {value : Json} {field : String} {o : Option String}
    (h : MessageTreeGraph.optionalId value field = .ok o) :
    o = if value.isNull then none else some value.toStr := by
  cases value with
  | null =>
    cases h
    rfl
  | str s =>
    simp only [MessageTreeGraph.optionalId] at h
    split_ifs at h
    cases h
    rfl
  | int n =>
    simp only [MessageTreeGraph.optionalId] at h
    split_ifs at h
    cases h
    rfl
  | _ => cases h

theorem requiredId_toStr {value : Json} {field id : String}
    (h : MessageTreeGraph.requiredId value field = .ok id) :
    value.isNull = false ∧ id = value.toStr := by
  unfold MessageTreeGraph.requiredId at h
  split at h
  · cases h
  · cases h
  · next hs =>
    cases h
    have ho := optionalId_toStr hs
    split_ifs at ho with hnull
    exact ⟨by simpa using hnull, Option.some.inj ho⟩

/-- The ids under which a node is looked up are the two of the node read. -/
theorem nodeFromSnapshot_ids {data : Json} {scope : MessageScope} {n : MessageNode}
    (h : MessageTreeGraph.nodeFromSnapshot data scope = .ok n) :
    ([data.getD "node_id", data.getD "status_message_id"].filterMap fun j =>
      if j.isNull then none else some j.toStr) = n.nodeId :: n.statusMessageId.toList := by
  unfold MessageTreeGraph.nodeFromSnapshot at h
  simp only [bind_eq_ok, guard_eq_ok] at h
  obtain ⟨_, -, status, hstatus, -, _, -, _, -, id, hid, _, -, h⟩ := h
  cases h
  obtain ⟨hnull, hid⟩ := requiredId_toStr hid
  have hs := optionalId_toStr hstatus
  simp only [List.filterMap_cons, List.filterMap_nil, hnull, hid, Bool.false_eq_true, if_false]
  rw [hs]
  by_cases hn : (data.getD "status_message_id").isNull <;> simp [hn]

theorem fromSnapshot_hasReference {snapshot : TreeSnapshot}
    (h : MessageTree.fromSnapshot snapshot = .ok t) :
    t.graph.HasReference ref ↔ ref ∈ snapshot.lookupIds := by
  obtain ⟨g, hg, hi⟩ := fromSnapshot_cases h
  obtain ⟨root, st, hload⟩ := MessageTreeGraph.fromSnapshot_loaded hg
  have hsource := hload.source
  have hnode : ∀ {id n}, st.1.getNode id = some n →
      ∃ m, t.graph.getNode id = some m ∧ m.statusMessageId = n.statusMessageId := by
    intro id n hn
    obtain ⟨m, hm, hl⟩ := hi.graph.sameShape.node id _ (by rw [hload.linked.node, hn]; rfl)
    exact ⟨m, hm, hl.status⟩
  have hback : ∀ {id m}, t.graph.getNode id = some m →
      ∃ n, st.1.getNode id = some n ∧ m.statusMessageId = n.statusMessageId := by
    intro id m hm
    obtain ⟨k, hk, hl⟩ := hi.graph.sameShape.node_back hm
    rw [hload.linked.node] at hk
    obtain ⟨n, hn, rfl⟩ := Option.map_eq_some_iff.mp hk
    exact ⟨n, hn, hl.status⟩
  have hids : ∀ {j : String} {fields : List (String × Json)} {n : MessageNode}, j = n.nodeId →
      MessageTreeGraph.nodeFromSnapshot (.obj fields) snapshot.scope = .ok n →
      (ref ∈ j :: [(Json.obj fields).getD "node_id",
          (Json.obj fields).getD "status_message_id"].filterMap (fun j =>
            if j.isNull then none else some j.toStr) ↔
        ref = j ∨ n.statusMessageId = some ref) := by
    intro j fields n hj hread
    rw [nodeFromSnapshot_ids hread, hj]
    cases n.statusMessageId with
    | none => simp
    | some s => simp [eq_comm]
  constructor
  · rintro ⟨id, m, hm, href⟩
    obtain ⟨n, hn, hst⟩ := hback hm
    obtain ⟨data, hd, -⟩ := hsource.node hn
    obtain ⟨n', fields, rfl, hread, hn'⟩ := hsource.entry hd
    cases hn.symm.trans hn'
    refine List.mem_flatMap.mpr ⟨_, hd, ?_⟩
    refine (hids (hload.indexed.keyed hn).symm hread).mpr ?_
    rwa [← hst]
  · intro hmem
    obtain ⟨⟨j, data⟩, hd, href⟩ := List.mem_flatMap.mp hmem
    obtain ⟨n, fields, rfl, hread, hn⟩ := hsource.entry hd
    obtain ⟨m, hm, hst⟩ := hnode hn
    refine ⟨j, m, hm, ?_⟩
    rw [hst]
    exact (hids (hload.indexed.keyed hn).symm hread).mp href

end MessageTree

namespace TreeRepository

variable {r r' : TreeRepository} {identity : TreeIdentity} {tree tree' : MessageTree}

/-- The index holds the references of the published trees and nothing else. -/
structure IndexAgrees (r : TreeRepository) : Prop where
  keyed : ∀ {i t}, r.getTree i = some t → t.identity = i
  index : ∀ {scope ref i}, r.referenceToTree.get? (scope, ref) = some i ↔
    ∃ t, r.getTree i = some t ∧ t.identity.scope = scope ∧ t.graph.HasReference ref

/-- A reference of a scope belongs to one published tree at most. -/
theorem IndexAgrees.unique (ha : r.IndexAgrees) {i j : TreeIdentity} {t u : MessageTree}
    {ref : String} (hi : r.getTree i = some t) (hj : r.getTree j = some u)
    (hscope : t.identity.scope = u.identity.scope) (ht : t.graph.HasReference ref)
    (hu : u.graph.HasReference ref) : i = j :=
  Option.some.inj ((ha.index.mpr ⟨t, hi, hscope, ht⟩).symm.trans (ha.index.mpr ⟨u, hj, rfl, hu⟩))

theorem IndexAgrees.referenced (ha : r.IndexAgrees) {scope : MessageScope} {ref : String} :
    r.hasReference scope ref = true ↔ (r.getTreeForReference scope ref).isSome := by
  unfold hasReference getTreeForReference
  rw [Dict.contains_iff, Option.isSome_iff_exists]
  constructor
  · rintro ⟨i, hi⟩
    obtain ⟨t, ht, -⟩ := ha.index.mp hi
    exact ⟨(i, t), by rw [hi, Option.bind_some, show r.trees.get? i = some t from ht]; rfl⟩
  · rintro ⟨p, hp⟩
    obtain ⟨i, hi, -⟩ := Option.bind_eq_some_iff.mp hp
    exact ⟨i, hi⟩

theorem removeTree_putTree (h : r.getTree identity = some tree) (tree' : MessageTree) :
    (r.putTree identity tree').removeTree identity = r.removeTree identity := by
  have htrees : (r.trees.modify identity fun _ => tree').erase identity =
      r.trees.erase identity := by
    refine Dict.eq_of_keys_get? ?_ fun k => ?_
    · rw [Dict.keys_erase, Dict.keys_erase, Dict.keys_modify]
    · rw [Dict.get?_erase, Dict.get?_erase, Dict.get?_modify]
      split_ifs <;> rfl
  have hget : r.trees.get? identity = some tree := h
  unfold removeTree putTree
  simp only [Dict.contains, Dict.get?_modify_self, hget, Option.map_some, Option.isSome_some,
    if_true, htrees]

theorem getTree_putTree (r : TreeRepository) (identity i : TreeIdentity) (tree : MessageTree) :
    (r.putTree identity tree).getTree i =
      if i = identity then (r.getTree identity).map fun _ => tree else r.getTree i :=
  Dict.get?_modify _ _ _ _

/-- Putting back the tree that is there changes nothing. -/
theorem putTree_self (h : r.getTree identity = some tree) : r.putTree identity tree = r := by
  have htrees : r.trees.modify identity (fun _ => tree) = r.trees := by
    refine Dict.eq_of_keys_get? (Dict.keys_modify _ _ _) fun k => ?_
    rw [Dict.get?_modify]
    split_ifs with hk
    · rw [hk, show r.trees.get? identity = some tree from h]
      rfl
    · rfl
  unfold putTree
  rw [htrees]

theorem IndexAgrees.putTree (ha : r.IndexAgrees) (h : r.getTree identity = some tree)
    (hident : tree'.identity = tree.identity)
    (href : ∀ ref, tree'.graph.HasReference ref ↔ tree.graph.HasReference ref) :
    (r.putTree identity tree').IndexAgrees where
  keyed := by
    intro i t hi
    rw [getTree_putTree, h] at hi
    split_ifs at hi with hid
    · cases hi
      rw [hident, ha.keyed h, hid]
    · exact ha.keyed hi
  index := by
    intro scope ref i
    refine ha.index.trans ?_
    rw [getTree_putTree, h]
    split_ifs with hid
    · subst hid
      simp [h, hident, href]
    · rfl

theorem IndexAgrees.removeTree (ha : r.IndexAgrees) : (r.removeTree identity).IndexAgrees := by
  unfold TreeRepository.removeTree
  split_ifs
  · have hget : ∀ {i t}, (r.trees.erase identity).get? i = some t ↔
        i ≠ identity ∧ r.getTree i = some t := by
      intro i t
      rw [Dict.get?_erase]
      by_cases hi : i = identity <;> simp [hi, getTree]
    constructor
    · exact fun hi => ha.keyed (hget.mp hi).2
    · intro scope ref i
      simp only [Dict.get?_filter, Option.filter_eq_some_iff, ne_eq, decide_not,
        Bool.not_eq_true', decide_eq_false_iff_not, ha.index, getTree, hget]
      constructor
      · rintro ⟨⟨t, ht, h⟩, hi⟩
        exact ⟨t, ⟨hi, ht⟩, h⟩
      · rintro ⟨t, ⟨hi, ht⟩, h⟩
        exact ⟨⟨t, ht, h⟩, hi⟩
  · exact ha

/-- `r'` publishes a tree under an identity, with references that were fresh. -/
structure Extends (r : TreeRepository) (identity : TreeIdentity) (tree : MessageTree)
    (refs : List String) (r' : TreeRepository) : Prop where
  fresh : ∀ ref ∈ refs, r.hasReference identity.scope ref = false
  getTree : ∀ i, r'.getTree i = if i = identity then some tree else r.getTree i
  index : ∀ k, r'.referenceToTree.get? k =
    if k.1 = identity.scope ∧ k.2 ∈ refs then some identity else r.referenceToTree.get? k

theorem registerNode_ok {nodeId statusId : String}
    (h : r.registerNode identity nodeId statusId = .ok r') :
    (∀ ref ∈ [nodeId, statusId], r.hasReference identity.scope ref = false) ∧
      r'.trees = r.trees ∧ ∀ k, r'.referenceToTree.get? k =
        if k.1 = identity.scope ∧ k.2 ∈ [nodeId, statusId] then some identity
        else r.referenceToTree.get? k := by
  unfold registerNode at h
  split_ifs at h with hfree
  cases h
  rw [Bool.not_eq_true, Bool.or_eq_false_iff] at hfree
  refine ⟨by simpa using hfree, rfl, ?_⟩
  rintro ⟨scope, ref⟩
  simp only [Dict.get?_set, Prod.mk.injEq, List.mem_cons, List.not_mem_nil, or_false]
  by_cases hs : scope = identity.scope <;> by_cases h1 : ref = statusId <;>
    by_cases h2 : ref = nodeId <;> simp [hs, h1, h2]

/-- A reply is registered after its tree has taken it in. -/
theorem extends_registerNode {nodeId statusId : String} (h : r.getTree identity = some tree)
    (hreg : (r.putTree identity tree').registerNode identity nodeId statusId = .ok r') :
    r.Extends identity tree' [nodeId, statusId] r' := by
  obtain ⟨hfresh, htrees, hindex⟩ := registerNode_ok hreg
  refine ⟨hfresh, ?_, hindex⟩
  intro i
  unfold getTree
  rw [htrees]
  refine (getTree_putTree r identity i tree').trans ?_
  rw [h]
  rfl

theorem extends_addTree {nodeId statusId : String}
    (hadd : r.addTree tree nodeId statusId = .ok r') :
    r.getTree tree.identity = none ∧ r.Extends tree.identity tree [nodeId, statusId] r' := by
  unfold TreeRepository.addTree at hadd
  split_ifs at hadd with hnew
  cases hreg : r.registerNode tree.identity nodeId statusId with
  | error e =>
    rw [hreg] at hadd
    cases hadd
  | ok r1 =>
    rw [hreg] at hadd
    cases hadd
    obtain ⟨hfresh, htrees, hindex⟩ := registerNode_ok hreg
    refine ⟨by simpa [Dict.contains, getTree] using hnew, hfresh, ?_, hindex⟩
    intro i
    refine (Dict.get?_set _ _ _ _).trans ?_
    rw [htrees]
    rfl

theorem get?_foldl_set (refs : List String) (identity : TreeIdentity)
    (index : Dict (MessageScope × String) TreeIdentity) (k : MessageScope × String) :
    (refs.foldl (fun d ref => d.set (identity.scope, ref) identity) index).get? k =
      if k.1 = identity.scope ∧ k.2 ∈ refs then some identity else index.get? k := by
  obtain ⟨scope, ref⟩ := k
  induction refs generalizing index with
  | nil => simp
  | cons a refs ih =>
    rw [List.foldl_cons, ih, Dict.get?_set]
    by_cases hs : scope = identity.scope
    · by_cases hm : ref ∈ refs
      · simp [hs, hm]
      · simp [hs, hm]
    · simp [hs]

/-- A snapshot is skipped, or its tree is published under its lookup ids. -/
theorem extends_restoreTree (st : TreeRepository × ConversationSnapshot × List NodeUiTarget)
    (snapshot : TreeSnapshot) :
    restoreTree st snapshot = st ∨ ∃ tree, MessageTree.fromSnapshot snapshot = .ok tree ∧
      st.1.getTree tree.identity = none ∧
      st.1.Extends tree.identity tree snapshot.lookupIds (restoreTree st snapshot).1 := by
  obtain ⟨repo, normalized, stale⟩ := st
  unfold restoreTree
  split
  · exact Or.inl rfl
  · next tree htree =>
    simp only
    split_ifs with hskip
    · exact Or.inl rfl
    · rw [Bool.or_eq_true, not_or, List.any_eq_true] at hskip
      obtain ⟨hnew, hfree⟩ := hskip
      refine Or.inr ⟨tree, htree, by simpa [Dict.contains, getTree] using hnew, ?_, ?_, ?_⟩
      · intro ref href
        rw [← Bool.not_eq_true]
        exact fun hused => hfree ⟨ref, href, hused⟩
      · exact fun i => Dict.get?_set _ _ _ _
      · exact get?_foldl_set _ _ _

theorem IndexAgrees.extended (ha : r.IndexAgrees) {refs : List String}
    (he : r.Extends identity tree refs r') (hident : tree.identity = identity)
    (href : ∀ ref, tree.graph.HasReference ref ↔
      (∃ t, r.getTree identity = some t ∧ t.graph.HasReference ref) ∨ ref ∈ refs) :
    r'.IndexAgrees := by
  constructor
  · intro i t hi
    rw [he.getTree] at hi
    split_ifs at hi with hid
    · cases hi
      exact hident.trans hid.symm
    · exact ha.keyed hi
  · intro scope ref i
    rw [he.index, he.getTree]
    by_cases hnew : scope = identity.scope ∧ ref ∈ refs
    · obtain ⟨rfl, hr⟩ := hnew
      rw [if_pos ⟨rfl, hr⟩]
      split_ifs with hid
      · subst hid
        simp [hident, href, hr]
      · -- no other tree knows a fresh reference
        refine ⟨fun heq => absurd (Option.some.inj heq).symm hid, ?_⟩
        rintro ⟨t, ht, hscope, hhas⟩
        have hused : r.hasReference identity.scope ref = true :=
          Dict.contains_iff.mpr ⟨i, ha.index.mpr ⟨t, ht, hscope, hhas⟩⟩
        rw [he.fresh ref hr] at hused
        cases hused
    · rw [if_neg hnew, ha.index]
      split_ifs with hid
      · subst hid
        simp only [Option.some.injEq, exists_eq_left', hident]
        constructor
        · rintro ⟨t, ht, hs, hhas⟩
          rw [ha.keyed ht] at hs
          exact ⟨hs, (href ref).mpr (Or.inl ⟨t, ht, hhas⟩)⟩
        · rintro ⟨hs, hhas⟩
          rcases (href ref).mp hhas with ⟨t, ht, hhas⟩ | hr
          · exact ⟨t, ht, by rw [ha.keyed ht, hs], hhas⟩
          · exact absurd ⟨hs.symm, hr⟩ hnew
      · rfl

theorem indexAgrees_restoreTree {st : TreeRepository × ConversationSnapshot × List NodeUiTarget}
    (hst : st.1.IndexAgrees) (snapshot : TreeSnapshot) :
    (restoreTree st snapshot).1.IndexAgrees := by
  rcases extends_restoreTree st snapshot with h | ⟨tree, htree, hnone, he⟩
  · rw [h]
    exact hst
  · refine hst.extended he rfl ?_
    intro ref
    rw [MessageTree.fromSnapshot_hasReference htree, hnone]
    simp

theorem indexAgrees_empty : empty.IndexAgrees := by
  refine ⟨fun hi => (by cases hi), ?_⟩
  intro scope ref i
  simp [empty, getTree]

theorem indexAgrees_fromSnapshot (s : ConversationSnapshot) : (fromSnapshot s).1.IndexAgrees := by
  unfold fromSnapshot
  refine List.foldlRecOn
    (motive := fun st : TreeRepository × ConversationSnapshot × List NodeUiTarget =>
      st.1.IndexAgrees) _ _ indexAgrees_empty ?_
  intro st hst snapshot _
  exact indexAgrees_restoreTree hst snapshot

/-! ## Removal -/

theorem get?_unregisterReferences (r : TreeRepository) (identity : TreeIdentity)
    (refs : List String) (k : MessageScope × String) :
    (r.unregisterReferences identity refs).referenceToTree.get? k =
      if k.1 = identity.scope ∧ k.2 ∈ refs ∧ r.referenceToTree.get? k = some identity then none
      else r.referenceToTree.get? k := by
  unfold unregisterReferences
  obtain ⟨trees, index⟩ := r
  obtain ⟨scope, ref⟩ := k
  simp only
  induction refs generalizing index with
  | nil => simp
  | cons a refs ih =>
    rw [List.foldl_cons, ih]
    by_cases howner : index.get? (identity.scope, a) = some identity
    · rw [if_pos howner]
      simp only [Dict.get?_erase, Prod.mk.injEq, List.mem_cons]
      by_cases hka : scope = identity.scope ∧ ref = a
      · obtain ⟨rfl, rfl⟩ := hka
        simp [howner]
      · rw [if_neg hka]
        by_cases hs : scope = identity.scope
        · have hra : ref ≠ a := fun h => hka ⟨hs, h⟩
          simp [hra]
        · simp [hs]
    · rw [if_neg howner]
      simp only [List.mem_cons]
      by_cases hka : scope = identity.scope ∧ ref = a
      · obtain ⟨rfl, rfl⟩ := hka
        simp [howner]
      · by_cases hs : scope = identity.scope
        · have hra : ref ≠ a := fun h => hka ⟨hs, h⟩
          simp [hra]
        · simp [hs]

/-- References that a published tree has just lost. -/
theorem IndexAgrees.unregistered (ha : r.IndexAgrees) (h : r.getTree identity = some tree)
    (hident : tree'.identity = tree.identity) {refs : List String}
    (href : ∀ ref, tree'.graph.HasReference ref ↔ tree.graph.HasReference ref ∧ ref ∉ refs) :
    ((r.putTree identity tree').unregisterReferences identity refs).IndexAgrees := by
  have hkey := ha.keyed h
  have hget : ∀ i, ((r.putTree identity tree').unregisterReferences identity refs).getTree i =
      if i = identity then some tree' else r.getTree i := by
    intro i
    refine (getTree_putTree r identity i tree').trans ?_
    rw [h]
    rfl
  constructor
  · intro i t hi
    rw [hget] at hi
    split_ifs at hi with hid
    · cases hi
      rw [hident, hkey, hid]
    · exact ha.keyed hi
  · intro scope ref i
    rw [get?_unregisterReferences, hget]
    change (if scope = identity.scope ∧ ref ∈ refs ∧
      r.referenceToTree.get? (scope, ref) = some identity then none
        else r.referenceToTree.get? (scope, ref)) = some i ↔ _
    by_cases hid : i = identity
    · subst hid
      simp only [if_true, Option.some.injEq, exists_eq_left', hident, href]
      split_ifs with hdrop
      · simp [hdrop.2.1]
      · rw [ha.index]
        simp only [h, Option.some.injEq, exists_eq_left']
        refine and_congr_right fun hs => ?_
        refine ⟨fun hhas => ⟨hhas, fun hr => hdrop ⟨?_, hr, ?_⟩⟩, And.left⟩
        · rw [← hs, hkey]
        · exact ha.index.mpr ⟨tree, h, hs, hhas⟩
    · rw [if_neg hid, ← ha.index]
      split_ifs with hdrop
      · rw [hdrop.2.2]
        simp [Ne.symm hid]
      · rfl

end TreeRepository

/-! ## Admissions -/

namespace MessageTree

variable {t t' : MessageTree} {n : MessageNode}

/-- A pending node with a status that does not wait yet is admitted. -/
theorem enqueueOrClaim_accepts {nodeId : String} (hn : t.graph.getNode nodeId = some n)
    (hp : n.state = .pending) (hst : n.statusMessageId.isSome) (hq : nodeId ∉ t.queue.deque)
    (claimId : String) :
    ∃ d, (t.enqueueOrClaim nodeId claimId).1 = .ok d ∧ d.accepted = true := by
  obtain ⟨s, hs⟩ := Option.isSome_iff_exists.mp hst
  have hput : nodeId ∉ t.queue.set := fun h => hq ((t.queue.index nodeId).mp h)
  unfold enqueueOrClaim
  rw [hn]
  simp only [hp, ne_eq, not_true_eq_false, if_false]
  cases t.active with
  | none =>
    simp only [claim, uiTarget, hs]
    exact ⟨_, rfl, rfl⟩
  | some a =>
    simp only [MessageNodeQueue.put, hput, dif_neg, not_false_eq_true]
    exact ⟨_, rfl, rfl⟩

/-- Adding a reply either changes nothing or gives an accepted decision. -/
theorem addAndEnqueue_accepts {waiting : String → Prop} (hs : t.Scheduled waiting)
    (nodeId : String) (scope : MessageScope) (prompt statusId parentId ref claimId : String) :
    (∃ e, t.addAndEnqueue nodeId scope prompt statusId parentId ref claimId = (.error e, t)) ∨
      ∃ g d, t.graph.addNode nodeId scope prompt statusId parentId ref = .ok g ∧
        d.accepted = true ∧ t.addAndEnqueue nodeId scope prompt statusId parentId ref claimId =
          (.ok d, (({ t with graph := g } : MessageTree).enqueueOrClaim nodeId claimId).2) := by
  unfold addAndEnqueue
  cases hadd : t.graph.addNode nodeId scope prompt statusId parentId ref with
  | error e => exact Or.inl ⟨e, rfl⟩
  | ok g =>
    have ha := MessageTreeGraph.addNode_ok hadd
    have hq : nodeId ∉ t.queue.deque := by
      intro hq
      obtain ⟨n, hn, -⟩ := hs.queued nodeId hq
      rw [ha.freshNode] at hn
      cases hn
    obtain ⟨d, hd, hacc⟩ := enqueueOrClaim_accepts (t := { t with graph := g }) ha.node_new rfl rfl
      hq claimId
    exact Or.inr ⟨g, d, rfl, hacc, Prod.ext hd rfl⟩

end MessageTree

namespace TreeQueueManager

open TreeRepository

variable {r : TreeRepository} {scope : MessageScope} {nodeId prompt statusId claimId : String}
  {parentReference : Option String}

/-- The four ways an admission ends. -/
inductive AdmitCases (r : TreeRepository) (scope : MessageScope)
    (nodeId prompt statusId claimId : String) : Outcome QueueDecision → Prop
  | refused {x : Except Fault QueueDecision} (hx : ∀ d, x = .ok d → d.accepted = false) :
    AdmitCases r scope nodeId prompt statusId claimId (x, r)
  | duplicate {identity tree} (hpub : r.getTree identity = some tree) :
    AdmitCases r scope nodeId prompt statusId claimId
      (onTree r identity (tree.enqueueOrClaim nodeId claimId))
  | reply {identity tree parentId ref g d r'} (hpub : r.getTree identity = some tree)
    (hadd : tree.graph.addNode nodeId scope prompt statusId parentId ref = .ok g)
    (hd : d.accepted = true)
    (he : r.Extends identity
      (({ tree with graph := g } : MessageTree).enqueueOrClaim nodeId claimId).2
        [nodeId, statusId] r') :
    AdmitCases r scope nodeId prompt statusId claimId (.ok d, r')
  | root {tree d r'} (hnew : MessageTree.new
      { nodeId := nodeId, scope := scope, prompt := prompt, statusMessageId := some statusId } =
        .ok tree) (hd : d.accepted = true)
    (hnone : r.getTree (tree.enqueueOrClaim nodeId claimId).2.identity = none)
    (he : r.Extends (tree.enqueueOrClaim nodeId claimId).2.identity
      (tree.enqueueOrClaim nodeId claimId).2 [nodeId, statusId] r') :
    AdmitCases r scope nodeId prompt statusId claimId (.ok d, r')

theorem admitMessage_cases (ha : r.IndexAgrees) (hall : r.AllTrees (Admitted fun _ _ => True)) :
    AdmitCases r scope nodeId prompt statusId claimId
      (admitMessage r scope nodeId prompt statusId parentReference claimId) := by
  unfold admitMessage
  cases hdup : duplicateTree r scope nodeId statusId with
  | some p =>
    obtain ⟨identity, tree⟩ := p
    have hpub : r.getTree identity = some tree := by
      unfold duplicateTree at hdup
      split at hdup
      · next h =>
        rw [hdup] at h
        exact getTreeForReference_published h
      · exact getTreeForReference_published hdup
    exact .duplicate hpub
  | none =>
    have hfree : r.hasReference scope nodeId = false ∧ r.hasReference scope statusId = false := by
      unfold duplicateTree at hdup
      split at hdup
      · cases hdup
      · next h =>
        simp only [← Bool.not_eq_true, ha.referenced, h, hdup]
        decide
    cases parentReference with
    | some ref =>
      simp only
      cases htree : r.getTreeForReference scope ref with
      | none => exact .refused (by rintro d ⟨⟩; rfl)
      | some p =>
        obtain ⟨identity, tree⟩ := p
        have hpub := getTreeForReference_published htree
        simp only
        cases tree.resolveReply ref with
        | none => exact .refused (by rintro d ⟨⟩; rfl)
        | some parent =>
          obtain ⟨waiting, hs⟩ := (hall _ _ hpub).scheduled
          simp only [onTree]
          rcases MessageTree.addAndEnqueue_accepts hs nodeId scope prompt statusId parent.nodeId
            parent.referenceId claimId with ⟨e, h⟩ | ⟨g, d, hadd, hd, h⟩
          · rw [h]
            simp only [putTree_self hpub]
            exact .refused (by rintro d ⟨⟩)
          · rw [h]
            have hscope : tree.identity.scope = scope :=
              (MessageTreeGraph.addNode_ok hadd).sameScope.symm
            -- no tree knows the two ids, so registering them cannot fail
            obtain ⟨r', hreg⟩ : ∃ r', (r.putTree identity
                (({ tree with graph := g } : MessageTree).enqueueOrClaim nodeId claimId).2
                ).registerNode tree.identity nodeId statusId = .ok r' := by
              have hput : ∀ t ref, (r.putTree identity t).hasReference scope ref =
                  r.hasReference scope ref := fun _ _ => rfl
              unfold registerNode
              rw [hscope, hput, hput, hfree.1, hfree.2]
              exact ⟨_, rfl⟩
            simp only [hreg]
            rw [ha.keyed hpub] at hreg
            exact .reply hpub hadd hd (extends_registerNode hpub hreg)
    | none =>
      simp only
      cases hnew : MessageTree.new
          { nodeId := nodeId, scope := scope, prompt := prompt, statusMessageId := some statusId }
        with
      | error e => exact .refused (by rintro d ⟨⟩)
      | ok tree =>
        simp only
        obtain ⟨g, hg, rfl⟩ := MessageTree.new_ok hnew
        obtain ⟨-, -, -, hnode, -⟩ := MessageTreeGraph.new_ok hg
        have hroot : g.getNode nodeId = some _ := (hnode nodeId).trans (if_pos rfl)
        obtain ⟨d, hd, hacc⟩ := MessageTree.enqueueOrClaim_accepts (t := { graph := g }) hroot
          rfl rfl List.not_mem_nil claimId
        split
        · next h =>
          rw [h] at hd
          cases hd
        · next d' tree' h =>
          have htree' : (MessageTree.enqueueOrClaim { graph := g } nodeId claimId).2 = tree' := by
            rw [h]
          rw [h] at hd
          obtain rfl : d' = d := Except.ok.inj hd
          subst htree'
          cases hadd : r.addTree (MessageTree.enqueueOrClaim { graph := g } nodeId claimId).2 nodeId
              statusId with
          | error e => exact .refused (by rintro d ⟨⟩)
          | ok r' =>
            obtain ⟨hnone, he⟩ := extends_addTree hadd
            exact .root hnew hacc hnone he

/-- A rejected admission changes nothing. -/
theorem admitMessage_rejected (ha : r.IndexAgrees)
    (hall : r.AllTrees (Admitted fun _ _ => True))
    (h : ∀ d, (admitMessage r scope nodeId prompt statusId parentReference claimId).1 = .ok d →
      d.accepted = false) :
    (admitMessage r scope nodeId prompt statusId parentReference claimId).2 = r := by
  have hcases : AdmitCases r scope nodeId prompt statusId claimId
    (admitMessage r scope nodeId prompt statusId parentReference claimId) :=
    admitMessage_cases ha hall
  generalize admitMessage r scope nodeId prompt statusId parentReference claimId = o at hcases h
  cases hcases with
  | refused => rfl
  | @duplicate identity tree hpub =>
    obtain ⟨waiting, hs⟩ := (hall _ _ hpub).scheduled
    have henq := hs.enqueueOrClaim_cases nodeId claimId
    simp only [onTree] at h ⊢
    generalize (tree.enqueueOrClaim nodeId claimId).1 = x at henq h
    generalize (tree.enqueueOrClaim nodeId claimId).2 = t' at henq
    cases henq with
    | duplicate => exact putTree_self hpub
    | claimed => cases h _ rfl
    | queued => cases h _ rfl
  | reply _ _ hd =>
    rw [h _ rfl] at hd
    cases hd
  | root _ hd =>
    rw [h _ rfl] at hd
    cases hd

end TreeQueueManager

/-! ## Runs -/

namespace TreeRepository

variable {r : TreeRepository}

theorem IndexAgrees.restated (ha : r.IndexAgrees) {identity : TreeIdentity}
    {tree tree' : MessageTree} (h : r.getTree identity = some tree)
    (hs : tree.graph.Restated tree'.graph) : (r.putTree identity tree').IndexAgrees :=
  ha.putTree h hs.identity fun _ => hs.hasReference

/-- What every lock section keeps: the trees are in states of runs of their own,
and the index holds their references. -/
structure Indexed (r : TreeRepository) : Prop where
  trees : r.AllTrees (Admitted fun _ _ => True)
  index : r.IndexAgrees

/-- An operation that keeps the messages, on a published tree. -/
theorem Indexed.operate (hr : r.Indexed) {identity : TreeIdentity} {tree : MessageTree}
    (h : r.getTree identity = some tree) (op : TreeOp) (hop : op.KeepsMessages)
    (hid : op.ProperId) : (r.putTree identity (op.apply tree)).Indexed where
  trees := hr.trees.putTree ((hr.trees _ _ h).apply hid fun _ _ => trivial)
  index := by
    obtain ⟨waiting, hs⟩ := (hr.trees _ _ h).scheduled
    exact hr.index.restated h (TreeOp.restated hs hop)

end TreeRepository

namespace ManagerOp

open TreeRepository TreeQueueManager

variable {r : TreeRepository}

theorem indexed_cancelTree {s : Sweep} (hs : s.repository.Indexed) (identity : TreeIdentity) :
    (cancelTree s identity).2.repository.Indexed := by
  unfold cancelTree
  cases hi : s.repository.getTree identity with
  | none => exact hs
  | some tree =>
    have hkept := hs.operate hi .cancelAll trivial trivial
    simp only [TreeOp.apply] at hkept
    simp only
    split
    · next h =>
      rw [h] at hkept
      exact hkept
    · next h =>
      rw [h] at hkept
      exact hkept

theorem indexed_clearTree {s : Sweep} (hs : s.repository.Indexed) (identity : TreeIdentity) :
    (clearTree s identity).2.repository.Indexed := by
  have hc := indexed_cancelTree hs identity
  unfold clearTree
  split
  · next h =>
    rw [h] at hc
    exact hc
  · next h =>
    rw [h] at hc
    exact ⟨hc.trees.removeTree, hc.index.removeTree⟩

theorem indexed_admitMessage (hr : r.Indexed) {scope : MessageScope}
    {nodeId prompt statusId claimId : String} {parentReference : Option String} (hne : nodeId ≠ "") :
    (TreeQueueManager.admitMessage r scope nodeId prompt statusId parentReference
      claimId).2.IndexAgrees := by
  have hcases : AdmitCases r scope nodeId prompt statusId claimId
    (TreeQueueManager.admitMessage r scope nodeId prompt statusId parentReference claimId) :=
    admitMessage_cases hr.index hr.trees
  generalize TreeQueueManager.admitMessage r scope nodeId prompt statusId parentReference claimId =
    o at hcases
  cases hcases with
  | refused => exact hr.index
  | duplicate hpub =>
    exact (hr.operate hpub (.enqueueOrClaim nodeId claimId) trivial trivial).index
  | @reply identity tree parentId ref g d r' hpub hadd _ he =>
    obtain ⟨waiting, hs⟩ := (hr.trees _ _ hpub).scheduled
    have ha := MessageTreeGraph.addNode_ok hadd
    have hre := TreeOp.restated_enqueued
      ((hs.added hne ha).toConsistent.enqueueOrClaim_cases nodeId claimId)
    refine hr.index.extended he ?_ ?_
    · exact (hre.identity.trans ha.identity).trans (hr.index.keyed hpub)
    · intro s
      rw [hre.hasReference, ha.hasReference, hpub]
      simp
  | @root tree d r' hnew _ hnone he =>
    have hs := MessageTree.scheduled_new ⟨hne, ⟨rfl, rfl⟩, rfl⟩ rfl hnew
    have hre := TreeOp.restated_enqueued (hs.toConsistent.enqueueOrClaim_cases nodeId claimId)
    refine hr.index.extended he rfl ?_
    intro s
    rw [hre.hasReference, hnone, MessageTree.new_hasReference hnew]
    simp [eq_comm]

/-- The step lemma for the index. -/
theorem indexed_apply (hr : r.Indexed) {op : ManagerOp} (hop : op.ProperId) :
    (op.apply r).IndexAgrees := by
  cases op with
  | admitMessage scope id prompt status parent claimId => exact indexed_admitMessage hr hop
  | recordSession claim sessionId =>
    simp only [ManagerOp.apply, TreeQueueManager.recordSession]
    split
    · exact hr.index
    · next h => exact (hr.operate h (.recordSession _ _) trivial trivial).index
  | completeClaim claim sessionId =>
    simp only [ManagerOp.apply, TreeQueueManager.completeClaim]
    split
    · exact hr.index
    · next h => exact (hr.operate h (.completeClaim _ _) trivial trivial).index
  | failClaim claim propagate =>
    simp only [ManagerOp.apply, TreeQueueManager.failClaim]
    split
    · exact hr.index
    · next h => exact (hr.operate h (.failClaim _ _) trivial trivial).index
  | finishClaim claim next =>
    simp only [ManagerOp.apply, TreeQueueManager.finishClaim]
    split
    · exact hr.index
    · next h => exact (hr.operate h (.finishAndClaimNext _ _) trivial trivial).index
  | cancelNode scope ref =>
    simp only [ManagerOp.apply, TreeQueueManager.cancelNode]
    split
    · exact hr.index
    · next h =>
      split
      · exact hr.index
      · exact (hr.operate (getTreeForReference_published h) (.cancelNode _) trivial
          trivial).index
  | cancelAll =>
    have hloop := raisingLoop_preserves (P := fun s => s.repository.Indexed) (f := cancelTree)
      (l := r.trees.keys) (fun c _ s hs => indexed_cancelTree hs c) (s := { repository := r }) hr
    simp only [ManagerOp.apply, TreeQueueManager.cancelAll]
    split
    · next h =>
      rw [h] at hloop
      exact hloop.index
    · next h =>
      rw [h] at hloop
      exact hloop.index
  | clearScope scope =>
    have hloop := raisingLoop_preserves (P := fun s => s.repository.Indexed) (f := clearTree)
      (l := r.trees.keys.filter fun i => i.scope = scope) (fun c _ s hs => indexed_clearTree hs c)
      (s := { repository := r }) hr
    simp only [ManagerOp.apply, TreeQueueManager.clearScope]
    split
    · next h =>
      rw [h] at hloop
      exact hloop.index
    · next h =>
      rw [h] at hloop
      exact hloop.index
  | removeMessageSubtree scope ref order =>
    simp only [ManagerOp.apply, TreeQueueManager.removeMessageSubtree]
    split
    · exact hr.index
    · next identity tree h =>
      have hpub := getTreeForReference_published h
      obtain ⟨waiting, hs⟩ := (hr.trees _ _ hpub).scheduled
      split
      · exact hr.index
      · next target htarget =>
        rcases hs.removeMessageSubtree_cases target.referenceId order with ⟨hnone, h⟩ |
          ⟨e, _, _, h, hsw, -⟩ | ⟨removal, mid, owner, kind, removed, affected, h, hd⟩
        · rw [h]
          simp only [MessageTree.nothingRemoved, Bool.false_eq_true, if_false, putTree_self hpub]
          exact hr.index
        · rw [show tree.removeMessageSubtree target.referenceId order = (_, _) from Prod.ext h rfl]
          exact hr.index.restated hpub hsw.graph.restated
        · rw [show tree.removeMessageSubtree target.referenceId order = (_, _) from Prod.ext h rfl]
          have hremoves := hs.removesSubtree hd
          simp only
          split_ifs with hentire
          · rw [removeTree_putTree hpub]
            exact hr.index.removeTree
          · exact hr.index.unregistered hpub hremoves.identity.1 (hremoves.hasReference hs.graph)

end ManagerOp

theorem TreeRepository.indexed_of_reachable {r : TreeRepository}
    (hr : managerSystem.Reachable r) : r.Indexed := by
  refine ⟨published_admitted hr, ?_⟩
  refine hr.invariant (P := IndexAgrees) ?_ ?_
  · rintro r (rfl | ⟨s, rfl⟩)
    · refine ⟨fun hi => (by cases hi), ?_⟩
      intro scope ref i
      simp [empty, getTree]
    · exact indexAgrees_fromSnapshot s
  · rintro r op _ hreach ha ⟨hop, rfl⟩
    exact ManagerOp.indexed_apply ⟨published_admitted hreach, ha⟩ hop

/-- After every lock section the index is the union of the references of the
published trees, no two trees of a scope share one, and an admission that is
rejected changes neither the index nor a tree. -/
theorem reference_index {r : TreeRepository} (hr : managerSystem.Reachable r) :
    (∀ i t, r.getTree i = some t → t.identity = i) ∧
    (∀ scope ref i, r.referenceToTree.get? (scope, ref) = some i ↔
      ∃ t, r.getTree i = some t ∧ t.identity.scope = scope ∧ t.graph.HasReference ref) ∧
    (∀ i j t u ref, r.getTree i = some t → r.getTree j = some u →
      t.identity.scope = u.identity.scope → t.graph.HasReference ref →
      u.graph.HasReference ref → i = j) ∧
    ∀ scope nodeId prompt statusId parentReference claimId,
      (∀ d, (TreeQueueManager.admitMessage r scope nodeId prompt statusId parentReference
        claimId).1 = .ok d → d.accepted = false) →
      (TreeQueueManager.admitMessage r scope nodeId prompt statusId parentReference claimId).2 =
        r := by
  obtain ⟨hall, ha⟩ := TreeRepository.indexed_of_reachable hr
  refine ⟨fun _ _ => ha.keyed, fun _ _ _ => ha.index, ?_, ?_⟩
  · exact fun i j t u ref hi hj hscope ht hu => ha.unique hi hj hscope ht hu
  · exact fun scope nodeId prompt statusId parent claimId h =>
      TreeQueueManager.admitMessage_rejected ha hall h

/-- A second admission of the sample's root, under another status. -/
theorem reference_index_sample :
    sampleManager.referenceToTree.get? (⟨"telegram", "7"⟩, "11") =
        some ⟨⟨"telegram", "7"⟩, "10"⟩ ∧
      (TreeQueueManager.admitMessage sampleManager ⟨"telegram", "7"⟩ "10" "again" "12" none
        "b").2 = sampleManager :=
  ⟨((reference_index sampleManager_reachable).2.1 _ _ _).mpr
      ⟨_, rfl, rfl, "10", _, rfl, Or.inr rfl⟩,
    (reference_index sampleManager_reachable).2.2.2 _ _ _ _ _ _ (by rintro d ⟨⟩; rfl)⟩

end Switchboard.Messaging
