import Switchboard.Library.Except
import Switchboard.Messaging.GraphSubtree

/-!
# Restoring a graph from a snapshot

`from_snapshot` reads the nodes and their references, links each node below its
parent and checks that the root reaches all of them. Whatever JSON it is given,
the graph it returns is well formed, and a runnable node in it has a status.
-/

namespace Switchboard.Messaging

namespace MessageTreeGraph

variable {g h : MessageTreeGraph} {snapshot : TreeSnapshot}

/-! ## Reading one node -/

theorem optionalId_nonempty {value : Json} {field s : String}
    (h : optionalId value field = .ok (some s)) : s ≠ "" := by
  unfold optionalId at h
  cases value with
  | str t =>
    simp only at h
    split_ifs at h with ht
    cases h
    exact ht
  | int n =>
    simp only at h
    split_ifs at h with ht
    cases h
    exact ht
  | null => cases h
  | bool b => cases h
  | float s => cases h
  | arr l => cases h
  | obj l => cases h

theorem requiredId_nonempty {value : Json} {field s : String}
    (h : requiredId value field = .ok s) : s ≠ "" := by
  unfold requiredId at h
  split at h
  · cases h
  · cases h
  · next hs =>
    cases h
    exact optionalId_nonempty hs

/-- What `from_snapshot` relies on about a node it has read. -/
structure ReadNode (scope : MessageScope) (n : MessageNode) : Prop where
  scope : n.scope = scope
  nonempty : n.nodeId ≠ ""
  noChildren : n.childrenIds = []
  runnableStatus : n.state.runnable = true → n.statusMessageId.isSome

theorem nodeFromSnapshot_ok {data : Json} {scope : MessageScope} {n : MessageNode}
    (h : nodeFromSnapshot data scope = .ok n) : ReadNode scope n := by
  unfold nodeFromSnapshot at h
  simp only [bind_eq_ok, guard_eq_ok] at h
  obtain ⟨state, -, status, -, hrun, parent, -, ref, -, id, hid, session, -, h⟩ := h
  cases h
  refine ⟨rfl, requiredId_nonempty hid, rfl, ?_⟩
  intro hr
  simpa [hr, Option.isSome_iff_ne_none] using hrun

theorem readSnapshotNode_reads {data : Json} {scope : MessageScope} {invalid : String}
    {n : MessageNode} (h : readSnapshotNode scope invalid data = .ok n) :
    (∃ fields, data = .obj fields) ∧ nodeFromSnapshot data scope = .ok n := by
  unfold readSnapshotNode at h
  split at h
  · refine ⟨⟨_, rfl⟩, ?_⟩
    split at h
    · exact h
    · split_ifs at h
      exact h
  · cases h

theorem readSnapshotNode_ok {data : Json} {scope : MessageScope} {invalid : String}
    {n : MessageNode} (h : readSnapshotNode scope invalid data = .ok n) : ReadNode scope n :=
  nodeFromSnapshot_ok (readSnapshotNode_reads h).2

/-! ## The first loop: nodes and reference owners -/

/-- Between two rounds of the first loop. -/
structure Indexed (scope : MessageScope) (root : MessageNode)
    (st : MessageTreeGraph × Dict String String) : Prop where
  rootId : st.1.rootId = root.nodeId
  identity : st.1.identity = ⟨scope, root.nodeId⟩
  root : st.1.getNode root.nodeId = some root
  keyed : ∀ {id n}, st.1.getNode id = some n → n.nodeId = id
  read : ∀ {id n}, st.1.getNode id = some n → ReadNode scope n
  distinct : ∀ {id n}, st.1.getNode id = some n → n.statusMessageId ≠ some id
  status : ∀ {s id}, st.1.statusToNode.get? s = some id ↔
    ∃ n, st.1.getNode id = some n ∧ n.statusMessageId = some s
  owner : ∀ {r id}, st.2.get? r = some id ↔
    ∃ n, st.1.getNode id = some n ∧ (r = id ∨ n.statusMessageId = some r)

theorem ownReference_ok {owner owner' : Dict String String} {id ref : String}
    (h : ownReference owner id ref = .ok owner') :
    (∀ o, owner.get? ref = some o → o = id) ∧ owner' = owner.set ref id := by
  unfold ownReference at h
  cases ho : owner.get? ref with
  | none =>
    rw [ho] at h
    cases h
    exact ⟨by simp, rfl⟩
  | some o =>
    rw [ho] at h
    simp only at h
    split_ifs at h with hoid
    cases h
    refine ⟨?_, rfl⟩
    intro o' ho'
    rw [← Option.some.inj ho', hoid]

/-- What a round of the first loop that does not skip the root has checked and done. -/
structure Restored (scope : MessageScope) (st : MessageTreeGraph × Dict String String)
    (node : MessageNode) (st' : MessageTreeGraph × Dict String String) : Prop where
  read : ReadNode scope node
  distinct : node.statusMessageId ≠ some node.nodeId
  fresh : st.1.getNode node.nodeId = none
  unowned : ∀ r o, (r = node.nodeId ∨ node.statusMessageId = some r) → st.2.get? r = some o →
    o = node.nodeId
  rootId : st'.1.rootId = st.1.rootId
  identity : st'.1.identity = st.1.identity
  getNode : ∀ j, st'.1.getNode j = if j = node.nodeId then some node else st.1.getNode j
  status : ∀ s, st'.1.statusToNode.get? s =
    if node.statusMessageId = some s then some node.nodeId else st.1.statusToNode.get? s
  owner : ∀ r, st'.2.get? r =
    if r = node.nodeId ∨ node.statusMessageId = some r then some node.nodeId else st.2.get? r

theorem restoreNode_ok {st st' : MessageTreeGraph × Dict String String} {entry : String × Json}
    (h : restoreNode snapshot st entry = .ok st') :
    entry.1 = snapshot.rootId ∧ st' = st ∨
      ∃ node, entry.1 = node.nodeId ∧ readSnapshotNode snapshot.scope
        "Tree snapshot contains an invalid node" entry.2 = .ok node ∧
          Restored snapshot.scope st node st' := by
  unfold restoreNode at h
  split_ifs at h with hroot
  · cases h
    exact Or.inl ⟨hroot, rfl⟩
  · simp only [bind_eq_ok, guard_eq_ok] at h
    obtain ⟨node, hread, hkey, hdist, hfresh, owner, hown, h⟩ := h
    obtain ⟨hfree, rfl⟩ := ownReference_ok hown
    have hfresh' : st.1.getNode node.nodeId = none := by
      simpa [Dict.contains, getNode] using hfresh
    refine Or.inr ⟨node, not_not.mp hkey, hread, ?_⟩
    cases hs : node.statusMessageId with
    | none =>
      rw [hs] at h
      cases h
      refine ⟨readSnapshotNode_ok hread, hdist, hfresh', ?_, rfl, rfl, ?_, ?_, ?_⟩
      · rintro r o (rfl | hr) ho
        · exact hfree o ho
        · rw [hs] at hr
          cases hr
      · exact fun j => Dict.get?_set _ _ _ _
      · simp [hs]
      · intro r
        rw [hs]
        simp [Dict.get?_set]
    | some s =>
      rw [hs] at h
      obtain ⟨owner', hown', h⟩ := bind_eq_ok.mp h
      obtain ⟨hfree', rfl⟩ := ownReference_ok hown'
      cases h
      have hsid : s ≠ node.nodeId := by
        rintro rfl
        exact hdist hs
      refine ⟨readSnapshotNode_ok hread, hdist, hfresh', ?_, rfl, rfl, ?_, ?_, ?_⟩
      · rintro r o (rfl | hr) ho
        · exact hfree o ho
        · rw [hs] at hr
          cases hr
          rw [Dict.get?_set_of_ne _ _ hsid] at hfree'
          exact hfree' o ho
      · exact fun j => Dict.get?_set _ _ _ _
      · intro t
        refine (Dict.get?_set _ _ _ _).trans ?_
        simp [hs, eq_comm]
      · intro r
        simp only [Dict.get?_set, hs, Option.some.injEq]
        by_cases hrs : r = s
        · simp [hrs]
        · simp [hrs, Ne.symm hrs]

/-- The first loop appends nodes; the root stays in front. -/
theorem restoreNode_keys {st st' : MessageTreeGraph × Dict String String} {entry : String × Json}
    (h : restoreNode snapshot st entry = .ok st') :
    st'.1.nodes.keys =
      if entry.1 = snapshot.rootId then st.1.nodes.keys else st.1.nodes.keys ++ [entry.1] := by
  unfold restoreNode at h
  split_ifs at h ⊢ with hroot
  · cases h
    rfl
  · simp only [bind_eq_ok, guard_eq_ok] at h
    obtain ⟨node, -, hid, -, hfresh, owner, -, h⟩ := h
    have hkey : node.nodeId ∉ st.1.nodes.keys := by
      rw [← Dict.get?_eq_none]
      simpa [Dict.contains] using hfresh
    rw [not_not.mp hid, ← Dict.keys_set_of_not_mem st.1.nodes node hkey]
    cases hs : node.statusMessageId with
    | none =>
      rw [hs] at h
      cases h
      rfl
    | some s =>
      rw [hs] at h
      obtain ⟨_, -, h⟩ := bind_eq_ok.mp h
      cases h
      rfl

/-- The nodes of the graph are those read from the entries in `done`. -/
structure ReadFrom (scope : MessageScope) (done : List (String × Json))
    (g : MessageTreeGraph) : Prop where
  node : ∀ {j n}, g.getNode j = some n →
    ∃ data, (j, data) ∈ done ∧ nodeFromSnapshot data scope = .ok n
  entry : ∀ {j data}, (j, data) ∈ done → ∃ n fields, data = .obj fields ∧
    nodeFromSnapshot data scope = .ok n ∧ g.getNode j = some n

theorem ReadFrom.congr {scope : MessageScope} {done done' : List (String × Json)}
    (hr : ReadFrom scope done g) (h : ∀ e, e ∈ done' ↔ e ∈ done) : ReadFrom scope done' g := by
  refine ⟨?_, fun he => hr.entry ((h _).mp he)⟩
  intro j n hn
  obtain ⟨data, hd, hread⟩ := hr.node hn
  exact ⟨data, (h _).mpr hd, hread⟩

theorem ReadFrom.restored {done : List (String × Json)} {node : MessageNode} {data : Json}
    {st st' : MessageTreeGraph × Dict String String} (hf : ReadFrom snapshot.scope done st.1)
    (hread : readSnapshotNode snapshot.scope "Tree snapshot contains an invalid node" data =
      .ok node) (hr : Restored snapshot.scope st node st') :
    ReadFrom snapshot.scope (done ++ [(node.nodeId, data)]) st'.1 := by
  obtain ⟨⟨fields, hobj⟩, hnode⟩ := readSnapshotNode_reads hread
  constructor
  · intro j n hn
    rw [hr.getNode] at hn
    split_ifs at hn with hj
    · cases hn
      exact ⟨data, List.mem_append_right _ (by simp [hj]), hnode⟩
    · obtain ⟨d, hd, hdn⟩ := hf.node hn
      exact ⟨d, List.mem_append_left _ hd, hdn⟩
  · intro j d hd
    rcases List.mem_append.mp hd with hd | hd
    · obtain ⟨n, fields, hobj, hdn, hn⟩ := hf.entry hd
      refine ⟨n, fields, hobj, hdn, ?_⟩
      have hj : j ≠ node.nodeId := by
        rintro rfl
        rw [hr.fresh] at hn
        cases hn
      rw [hr.getNode, if_neg hj, hn]
    · obtain ⟨rfl, rfl⟩ := Prod.mk.inj (List.mem_singleton.mp hd)
      exact ⟨node, fields, hobj, hnode, by rw [hr.getNode, if_pos rfl]⟩

theorem Indexed.restored {scope : MessageScope} {root node : MessageNode}
    {st st' : MessageTreeGraph × Dict String String} (hi : Indexed scope root st)
    (hr : Restored scope st node st') : Indexed scope root st' := by
  have back : ∀ {j n}, st'.1.getNode j = some n →
      j = node.nodeId ∧ n = node ∨ j ≠ node.nodeId ∧ st.1.getNode j = some n := by
    intro j n hn
    rw [hr.getNode] at hn
    split_ifs at hn with hj
    · exact Or.inl ⟨hj, (Option.some.inj hn).symm⟩
    · exact Or.inr ⟨hj, hn⟩
  have forth : ∀ {j n}, st.1.getNode j = some n → j ≠ node.nodeId ∧ st'.1.getNode j = some n := by
    intro j n hn
    have hj : j ≠ node.nodeId := by
      rintro rfl
      rw [hr.fresh] at hn
      cases hn
    exact ⟨hj, by rw [hr.getNode, if_neg hj]; exact hn⟩
  have hnew : st'.1.getNode node.nodeId = some node := by rw [hr.getNode, if_pos rfl]
  -- neither the new prompt id nor its status id is a reference of an old node
  have hfree : ∀ {j n r}, st.1.getNode j = some n → (r = j ∨ n.statusMessageId = some r) →
      ¬ (r = node.nodeId ∨ node.statusMessageId = some r) := by
    intro j n r hn hrj hrn
    exact (forth hn).1 (hr.unowned r j hrn (hi.owner.mpr ⟨n, hn, hrj⟩))
  refine ⟨hr.rootId.trans hi.rootId, hr.identity.trans hi.identity, (forth hi.root).2,
    ?_, ?_, ?_, ?_, ?_⟩
  · intro j n hn
    rcases back hn with ⟨rfl, rfl⟩ | ⟨-, hn⟩
    · rfl
    · exact hi.keyed hn
  · intro j n hn
    rcases back hn with ⟨rfl, rfl⟩ | ⟨-, hn⟩
    · exact hr.read
    · exact hi.read hn
  · intro j n hn
    rcases back hn with ⟨rfl, rfl⟩ | ⟨-, hn⟩
    · exact hr.distinct
    · exact hi.distinct hn
  · intro s j
    rw [hr.status]
    constructor
    · intro hs
      split_ifs at hs with hns
      · cases hs
        exact ⟨node, hnew, hns⟩
      · obtain ⟨n, hn, hs⟩ := hi.status.mp hs
        exact ⟨n, (forth hn).2, hs⟩
    · rintro ⟨n, hn, hs⟩
      rcases back hn with ⟨rfl, rfl⟩ | ⟨-, hn⟩
      · rw [if_pos hs]
      · rw [if_neg, hi.status.mpr ⟨n, hn, hs⟩]
        exact fun hns => hfree hn (Or.inr hs) (Or.inr hns)
  · intro r j
    rw [hr.owner]
    constructor
    · intro hrj
      split_ifs at hrj with hnr
      · cases hrj
        exact ⟨node, hnew, hnr⟩
      · obtain ⟨n, hn, hrn⟩ := hi.owner.mp hrj
        exact ⟨n, (forth hn).2, hrn⟩
    · rintro ⟨n, hn, hrn⟩
      rcases back hn with ⟨rfl, rfl⟩ | ⟨-, hn⟩
      · rw [if_pos hrn]
      · rw [if_neg (hfree hn hrn), hi.owner.mpr ⟨n, hn, hrn⟩]

theorem Indexed.disjoint {scope : MessageScope} {root : MessageNode}
    {st : MessageTreeGraph × Dict String String} (hi : Indexed scope root st) {s id : String}
    (hs : st.1.statusToNode.get? s = some id) : st.1.getNode s = none := by
  obtain ⟨n, hn, hns⟩ := hi.status.mp hs
  have howner := hi.owner.mpr ⟨n, hn, Or.inr hns⟩
  cases hm : st.1.getNode s with
  | none => rfl
  | some m =>
    rw [hi.owner.mpr ⟨m, hm, Or.inl rfl⟩] at howner
    cases howner
    exact absurd hns (hi.distinct hn)

theorem Indexed.resolves_to {scope : MessageScope} {root : MessageNode}
    {st : MessageTreeGraph × Dict String String} (hi : Indexed scope root st) {p r : String}
    {pn : MessageNode} (hp : st.1.getNode p = some pn)
    (hr : (st.1.resolveReference r).map (·.1.nodeId) = some p) :
    r = p ∨ pn.statusMessageId = some r := by
  unfold resolveReference at hr
  cases hn : st.1.getNode r with
  | some n =>
    rw [hn] at hr
    exact Or.inl ((hi.keyed hn).symm.trans (Option.some.inj hr))
  | none =>
    rw [hn] at hr
    unfold findNodeByStatusMessage at hr
    cases hs : st.1.statusToNode.get? r with
    | none => simp [hs] at hr
    | some id =>
      obtain ⟨n, hn, hns⟩ := hi.status.mp hs
      simp only [hs] at hr
      split_ifs at hr
      · cases hr
      · rw [hn] at hr
        have hid : id = p := (hi.keyed hn).symm.trans (Option.some.inj hr)
        subst hid
        rw [hn] at hp
        cases hp
        exact Or.inr hns

/-! ## The second loop: links -/

theorem resolveOwner_congr (hs : h.statusToNode = g.statusToNode)
    (hn : ∀ j, (h.getNode j).map (·.nodeId) = (g.getNode j).map (·.nodeId)) (ref : String) :
    (h.resolveReference ref).map (·.1.nodeId) = (g.resolveReference ref).map (·.1.nodeId) := by
  have hstatus : (h.findNodeByStatusMessage ref).map (·.nodeId) =
      (g.findNodeByStatusMessage ref).map (·.nodeId) := by
    unfold findNodeByStatusMessage
    rw [hs]
    cases g.statusToNode.get? ref with
    | none => rfl
    | some id =>
      simp only
      split_ifs
      · rfl
      · exact hn id
  unfold resolveReference
  have href := hn ref
  cases hg : g.getNode ref with
  | none =>
    rw [hg, Option.map_none, Option.map_eq_none_iff] at href
    rw [href]
    simpa [Option.map_map, Function.comp_def] using hstatus
  | some n =>
    rw [hg, Option.map_some, Option.map_eq_some_iff] at href
    obtain ⟨m, hm, hid⟩ := href
    rw [hm]
    exact congrArg some hid

/-- `c` is linked below `p` by the second loop. -/
def LinksBelow (g : MessageTreeGraph) (p c : String) : Prop :=
  c ≠ g.rootId ∧ (g.getNode c).bind (·.parentId) = some p

instance (g : MessageTreeGraph) (p c : String) : Decidable (g.LinksBelow p c) :=
  inferInstanceAs (Decidable (_ ∧ _))

/-- The checks of the second loop on one node. -/
def HasExactParent (g : MessageTreeGraph) (n : MessageNode) : Prop :=
  ∃ p r, n.parentId = some p ∧ (∃ pn, g.getNode p = some pn) ∧ n.parentReferenceId = some r ∧
    (g.resolveReference r).map (·.1.nodeId) = some p

/-- Between two rounds of the second loop, the keys in `done` being linked. -/
structure LinkedSoFar (g : MessageTreeGraph) (done : List String) (h : MessageTreeGraph) :
    Prop where
  rootId : h.rootId = g.rootId
  identity : h.identity = g.identity
  status : h.statusToNode = g.statusToNode
  node : ∀ j, h.getNode j = (g.getNode j).map fun n =>
    { n with childrenIds := done.filter (g.LinksBelow j) }
  checked : ∀ c ∈ done, c ≠ g.rootId → ∀ n, g.getNode c = some n → g.HasExactParent n

theorem linkNode_ok {id : String} {h' : MessageTreeGraph} (hl : h.linkNode id = .ok h') :
    (∀ n, h.getNode id = some n → n.nodeId = h.rootId) ∧ h' = h ∨
      ∃ n p, h.getNode id = some n ∧ n.nodeId ≠ h.rootId ∧ n.parentId = some p ∧
        h.HasExactParent n ∧
        h' = h.updateNode p fun parent =>
          { parent with childrenIds := parent.childrenIds ++ [n.nodeId] } := by
  unfold linkNode at hl
  cases hn : h.getNode id with
  | none =>
    rw [hn] at hl
    cases hl
    exact Or.inl ⟨by simp, rfl⟩
  | some n =>
    simp only [hn] at hl
    split_ifs at hl with hroot
    · cases hl
      refine Or.inl ⟨?_, rfl⟩
      intro m hm
      rw [← Option.some.inj hm]
      exact hroot
    · cases hp : n.parentId with
      | none => simp [hp] at hl
      | some p =>
        simp only [hp] at hl
        split_ifs at hl with hpn
        rw [Bool.not_eq_false, Dict.contains_iff] at hpn
        cases hr : n.parentReferenceId with
        | none => simp [hr] at hl
        | some r =>
          simp only [hr] at hl
          split_ifs at hl with hres
          cases hl
          exact Or.inr ⟨n, p, rfl, hroot, hp, ⟨p, r, hp, hpn, hr, not_not.mp hres⟩, rfl⟩

theorem LinkedSoFar.link {done : List String} {c : String} {h' : MessageTreeGraph}
    (hkeyed : ∀ {id n}, g.getNode id = some n → n.nodeId = id)
    (hl : g.LinkedSoFar done h) (h1 : h.linkNode c = .ok h') :
    g.LinkedSoFar (done ++ [c]) h' := by
  have hsame : ∀ j, (h.getNode j).map (·.nodeId) = (g.getNode j).map (·.nodeId) := by
    intro j
    rw [hl.node, Option.map_map]
    rfl
  rcases linkNode_ok h1 with ⟨hroot, rfl⟩ | ⟨m, p, hm, hroot, hp, hexact, rfl⟩
  · -- the root, or a key without a node, links nothing
    have hskip : ∀ n, g.getNode c = some n → c = g.rootId := by
      intro n hn
      have hh := hl.node c
      rw [hn, Option.map_some] at hh
      have := hroot _ hh
      rw [hl.rootId] at this
      exact (hkeyed hn).symm.trans this
    refine ⟨hl.rootId, hl.identity, hl.status, ?_, ?_⟩
    · intro j
      rw [hl.node]
      have hno : ¬ g.LinksBelow j c := by
        rintro ⟨hc, hb⟩
        obtain ⟨n, hn, -⟩ := Option.bind_eq_some_iff.mp hb
        exact hc (hskip n hn)
      simp [hno]
    · intro d hd hdr n hn
      rcases List.mem_append.mp hd with hd | hd
      · exact hl.checked d hd hdr n hn
      · rw [List.mem_singleton] at hd
        subst hd
        exact absurd (hskip n hn) hdr
  · rw [hl.node] at hm
    obtain ⟨n, hn, rfl⟩ := Option.map_eq_some_iff.mp hm
    have hid : n.nodeId = c := hkeyed hn
    have hcr : c ≠ g.rootId := by
      rw [← hid, ← hl.rootId]
      exact hroot
    have hbelow : ∀ j, g.LinksBelow j c ↔ j = p := by
      intro j
      have hp' : n.parentId = some p := hp
      simp [LinksBelow, hcr, hn, hp', eq_comm]
    refine ⟨hl.rootId, hl.identity, hl.status, ?_, ?_⟩
    · intro j
      rw [getNode_updateNode, hl.node, hl.node]
      by_cases hj : j = p
      · subst hj
        simp [hbelow, hid, Option.map_map, Function.comp_def]
      · simp [hj, hbelow]
    · intro d hd hdr n' hn'
      rcases List.mem_append.mp hd with hd | hd
      · exact hl.checked d hd hdr n' hn'
      · rw [List.mem_singleton] at hd
        subst hd
        rw [hn] at hn'
        cases hn'
        obtain ⟨p', r, hp', ⟨pn, hpn⟩, hr, hres⟩ := hexact
        rw [hl.node] at hpn
        obtain ⟨pn', hpn', -⟩ := Option.map_eq_some_iff.mp hpn
        rw [resolveOwner_congr hl.status hsame] at hres
        exact ⟨p', r, hp', ⟨pn', hpn'⟩, hr, hres⟩

section Linked

variable {scope : MessageScope} {root : MessageNode} {st : MessageTreeGraph × Dict String String}

theorem LinkedSoFar.node_back {done : List String} (hl : g.LinkedSoFar done h) {j : String}
    {m : MessageNode} (hm : h.getNode j = some m) : ∃ n, g.getNode j = some n ∧
      m = { n with childrenIds := done.filter (g.LinksBelow j) } := by
  rw [hl.node] at hm
  obtain ⟨n, hn, rfl⟩ := Option.map_eq_some_iff.mp hm
  exact ⟨n, hn, rfl⟩

theorem LinkedSoFar.node_forth {done : List String} (hl : g.LinkedSoFar done h) {j : String}
    {n : MessageNode} (hn : g.getNode j = some n) :
    h.getNode j = some { n with childrenIds := done.filter (g.LinksBelow j) } := by
  rw [hl.node, hn]
  rfl

theorem LinkedSoFar.rootNode (hi : Indexed scope root st)
    (hroot : root.parentId = none ∧ root.parentReferenceId = none)
    (hl : st.1.LinkedSoFar st.1.nodes.keys h) {n : MessageNode}
    (hn : st.1.getNode h.rootId = some n) : n.parentId = none ∧ n.parentReferenceId = none := by
  rw [hl.rootId, hi.rootId, hi.root] at hn
  rw [← Option.some.inj hn]
  exact hroot

/-- The children of a node are the nodes whose parent it is. -/
theorem LinkedSoFar.children (hi : Indexed scope root st)
    (hroot : root.parentId = none ∧ root.parentReferenceId = none)
    (hl : st.1.LinkedSoFar st.1.nodes.keys h) {p c : String} {pm : MessageNode}
    (hp : h.getNode p = some pm) :
    c ∈ pm.childrenIds ↔ ∃ cn, h.getNode c = some cn ∧ cn.parentId = some p := by
  obtain ⟨pn, -, rfl⟩ := hl.node_back hp
  simp only [List.mem_filter, Dict.mem_keys, decide_eq_true_eq, LinksBelow,
    Option.bind_eq_some_iff]
  constructor
  · rintro ⟨-, -, cn, hcn, hpc⟩
    exact ⟨_, hl.node_forth hcn, hpc⟩
  · rintro ⟨cm, hcm, hpc⟩
    obtain ⟨cn, hcn, rfl⟩ := hl.node_back hcm
    refine ⟨⟨cn, hcn⟩, ?_, cn, hcn, hpc⟩
    rintro rfl
    rw [← hl.rootId] at hcn
    have hp : cn.parentId = some p := hpc
    rw [(hl.rootNode hi hroot hcn).1] at hp
    cases hp

theorem LinkedSoFar.childrenNodup (hl : st.1.LinkedSoFar st.1.nodes.keys h) {p : String}
    {pm : MessageNode} (hp : h.getNode p = some pm) : pm.childrenIds.Nodup := by
  obtain ⟨pn, -, rfl⟩ := hl.node_back hp
  exact st.1.nodes.keys_nodup.filter _

end Linked

/-- A graph whose nodes are indexed and linked, and all reached from a root without
a parent, is well formed. The rank of a node is its place in the visit. -/
theorem wellFormed_of_linkedSoFar {scope : MessageScope} {root : MessageNode}
    {st : MessageTreeGraph × Dict String String} (hi : Indexed scope root st)
    (hroot : root.parentId = none ∧ root.parentReferenceId = none)
    (hl : st.1.LinkedSoFar st.1.nodes.keys h) {reached : List String}
    (hreach : h.getDescendants h.rootId = .ok reached)
    (hall : reached.toFinset = h.nodes.keys.toFinset) : h.WellFormed := by
  have back : ∀ {j m}, h.getNode j = some m → ∃ n, st.1.getNode j = some n ∧
      m = { n with childrenIds := st.1.nodes.keys.filter (st.1.LinksBelow j) } := hl.node_back
  have forth : ∀ {j n}, st.1.getNode j = some n → h.getNode j =
      some { n with childrenIds := st.1.nodes.keys.filter (st.1.LinksBelow j) } := hl.node_forth
  have hrootNode : ∀ {n}, st.1.getNode h.rootId = some n →
      n.parentId = none ∧ n.parentReferenceId = none := hl.rootNode hi hroot
  have hchildren : ∀ {p pm c}, h.getNode p = some pm →
      (c ∈ pm.childrenIds ↔ ∃ cn, h.getNode c = some cn ∧ cn.parentId = some p) :=
    hl.children hi hroot
  refine ⟨⟨?_, ?_, ?_, hchildren, ?_, ?_, ?_, ?_⟩, ?_⟩
  · intro j m hm
    obtain ⟨n, hn, rfl⟩ := back hm
    exact (hi.keyed hn :)
  · intro j m hm
    obtain ⟨n, hn, rfl⟩ := back hm
    rw [← hi.keyed hn]
    exact (hi.read hn).nonempty
  · intro m hm
    obtain ⟨n, hn, rfl⟩ := back hm
    exact (hrootNode hn :)
  · exact hl.childrenNodup
  · intro s j
    rw [hl.status, hi.status]
    constructor
    · rintro ⟨n, hn, hs⟩
      exact ⟨_, forth hn, hs⟩
    · rintro ⟨m, hm, hs⟩
      obtain ⟨n, hn, rfl⟩ := back hm
      exact ⟨n, hn, hs⟩
  · intro s j hs
    rw [hl.status] at hs
    rw [hl.node, hi.disjoint hs]
    rfl
  · refine ⟨fun j => reached.idxOf j, ?_⟩
    intro j m p hm hp
    have hmem : j ∈ reached := by
      rw [← List.mem_toFinset, hall, List.mem_toFinset, Dict.mem_keys]
      exact ⟨m, hm⟩
    obtain ⟨pre, suf, hsplit, hfirst⟩ := List.eq_append_cons_of_mem hmem
    have hp_pre : p ∈ pre := by
      rcases explore_origin (getDescendants_explore hreach hmem) hsplit with hjr | ⟨v, hv, hjv⟩
      · rw [List.mem_singleton] at hjr
        subst hjr
        obtain ⟨n, hn, rfl⟩ := back hm
        have hp : n.parentId = some p := hp
        rw [(hrootNode hn).1] at hp
        cases hp
      · obtain ⟨vm, hvm, hjc⟩ := mem_childrenOf.mp hjv
        obtain ⟨m', hm', hpv⟩ := (hchildren hvm).mp hjc
        rw [hm] at hm'
        cases hm'
        rw [hp] at hpv
        exact Option.some.inj hpv ▸ hv
    calc reached.idxOf p = pre.idxOf p := by rw [hsplit, List.idxOf_append_of_mem hp_pre]
      _ < pre.length := List.idxOf_lt_length_of_mem hp_pre
      _ = reached.idxOf j := by
        rw [hsplit, List.idxOf_append_of_notMem hfirst, List.idxOf_cons_self, Nat.add_zero]
  · intro j m hm hj
    obtain ⟨n, hn, rfl⟩ := back hm
    rw [hl.rootId] at hj
    have hkey : j ∈ st.1.nodes.keys := Dict.mem_keys.mpr ⟨n, hn⟩
    obtain ⟨p, r, hp, ⟨pn, hpn⟩, hr, hres⟩ := hl.checked j hkey hj n hn
    refine ⟨p, _, r, hp, forth hpn, hr, ?_⟩
    exact (hi.resolves_to hpn hres :)

/-! ## The restored graph -/

theorem indexed_new {scope : MessageScope} {root : MessageNode} (hread : ReadNode scope root)
    (hnew : new root = .ok g) :
    Indexed scope root (g, match root.statusMessageId with
      | some s => (Dict.empty.set root.nodeId root.nodeId).set s root.nodeId
      | none => Dict.empty.set root.nodeId root.nodeId) := by
  obtain ⟨hst, hid, hident, hnode, hidx⟩ := new_ok hnew
  have back : ∀ {j n}, g.getNode j = some n → j = root.nodeId ∧ n = root := by
    intro j n hn
    rw [hnode] at hn
    split_ifs at hn with hj
    exact ⟨hj, (Option.some.inj hn).symm⟩
  have hroot : g.getNode root.nodeId = some root := by rw [hnode, if_pos rfl]
  refine ⟨hid, hread.scope ▸ hident, hroot, ?_, ?_, ?_, ?_, ?_⟩
  · intro j n hn
    obtain ⟨rfl, rfl⟩ := back hn
    rfl
  · intro j n hn
    obtain ⟨-, rfl⟩ := back hn
    exact hread
  · intro j n hn
    obtain ⟨rfl, rfl⟩ := back hn
    exact hst
  · intro s j
    rw [hidx]
    constructor
    · intro hs
      split_ifs at hs with hrs
      cases hs
      exact ⟨root, hroot, hrs⟩
    · rintro ⟨n, hn, hs⟩
      obtain ⟨rfl, rfl⟩ := back hn
      rw [if_pos hs]
  · intro r j
    have howner : (match root.statusMessageId with
        | some s => (Dict.empty.set root.nodeId root.nodeId).set s root.nodeId
        | none => Dict.empty.set root.nodeId root.nodeId).get? r =
          if r = root.nodeId ∨ root.statusMessageId = some r then some root.nodeId else none := by
      cases root.statusMessageId with
      | none => simp [Dict.get?_set]
      | some s =>
        simp only [Dict.get?_set, Option.some.injEq]
        by_cases hrs : r = s
        · simp [hrs]
        · simp [hrs, Ne.symm hrs]
    rw [howner]
    constructor
    · intro hs
      split_ifs at hs with hrs
      cases hs
      exact ⟨root, hroot, hrs⟩
    · rintro ⟨n, hn, hs⟩
      obtain ⟨rfl, rfl⟩ := back hn
      rw [if_pos hs]

/-- What a graph restored from a snapshot satisfies. -/
structure FromSnapshot (snapshot : TreeSnapshot) (g : MessageTreeGraph) : Prop where
  wellFormed : g.WellFormed
  rootId : g.rootId = snapshot.rootId
  identity : g.identity = snapshot.identity
  root : ∃ r, g.getNode g.rootId = some r
  runnableStatus : ∀ {id n}, g.getNode id = some n → n.state.runnable = true →
    n.statusMessageId.isSome

/-- What the two loops and the checks between them leave. -/
structure Loaded (snapshot : TreeSnapshot) (root : MessageNode)
    (st : MessageTreeGraph × Dict String String) (g : MessageTreeGraph) : Prop where
  rootId : root.nodeId = snapshot.rootId
  noParent : root.parentId = none ∧ root.parentReferenceId = none
  indexed : Indexed snapshot.scope root st
  rootFirst : ∃ rest, st.1.nodes.keys = root.nodeId :: rest
  source : ReadFrom snapshot.scope snapshot.nodes.entries st.1
  linked : st.1.LinkedSoFar st.1.nodes.keys g
  keys : g.nodes.keys = st.1.nodes.keys
  reached : ∃ reached, g.getDescendants g.rootId = .ok reached ∧
    reached.toFinset = g.nodes.keys.toFinset

theorem indexed_loop {root : MessageNode} {start : MessageTreeGraph}
    {st : MessageTreeGraph × Dict String String} (hread : ReadNode snapshot.scope root)
    (hnew : new root = .ok start)
    (hloop : snapshot.nodes.entries.foldlM (restoreNode snapshot)
      (start, match root.statusMessageId with
        | some s => (Dict.empty.set root.nodeId root.nodeId).set s root.nodeId
        | none => Dict.empty.set root.nodeId root.nodeId) = .ok st) :
    Indexed snapshot.scope root st := by
  refine foldlM_ok_invariant (P := fun _ st => Indexed snapshot.scope root st) ?_
    (indexed_new hread hnew) hloop
  intro _ entry st st' hi hst
  rcases restoreNode_ok hst with ⟨-, rfl⟩ | ⟨node, -, -, hr⟩
  · exact hi
  · exact hi.restored hr

theorem Indexed.linked_loop {root : MessageNode} {scope : MessageScope}
    {st : MessageTreeGraph × Dict String String} (hi : Indexed scope root st)
    (hlinks : st.1.nodes.keys.foldlM linkNode st.1 = .ok g) :
    st.1.LinkedSoFar st.1.nodes.keys g := by
  refine foldlM_ok_invariant (P := fun done h => st.1.LinkedSoFar done h) ?_ ?_ hlinks
  · intro done c h h' hl hc
    exact hl.link hi.keyed hc
  · refine ⟨rfl, rfl, rfl, ?_, by simp⟩
    intro j
    cases hn : st.1.getNode j with
    | none => rfl
    | some n =>
      rw [Option.map_some, List.filter_nil, ← (hi.read hn).noChildren]

theorem fromSnapshot_loaded (h : fromSnapshot snapshot = .ok g) :
    ∃ root st, Loaded snapshot root st g := by
  unfold fromSnapshot at h
  cases hdata : snapshot.nodes.get? snapshot.rootId with
  | none =>
    rw [hdata] at h
    cases h
  | some data =>
    rw [hdata] at h
    obtain ⟨_, hpure, h⟩ := bind_eq_ok.mp h
    cases hpure
    simp only [bind_eq_ok, guard_eq_ok] at h
    obtain ⟨root, hread, hid, start, hnew, st, hloop, hparent, linked, hlinks, reached, hreach,
      h⟩ := h
    split_ifs at h with hall
    cases h
    have hread' := readSnapshotNode_ok hread
    have hi : Indexed snapshot.scope root st := indexed_loop hread' hnew hloop
    have hfirst : ∃ rest, st.1.nodes.keys = root.nodeId :: rest := by
      refine foldlM_ok_invariant (P := fun _ st => ∃ rest, st.1.nodes.keys = root.nodeId :: rest)
        ?_ ?_ hloop
      · rintro _ entry st st' ⟨rest, hrest⟩ hst
        rw [restoreNode_keys hst, hrest]
        split_ifs
        · exact ⟨rest, rfl⟩
        · exact ⟨rest ++ [entry.1], rfl⟩
      · unfold new at hnew
        split_ifs at hnew
        cases hnew
        exact ⟨[], rfl⟩
    have hentry : (snapshot.rootId, data) ∈ snapshot.nodes.entries := Dict.get?_eq_some.mp hdata
    -- the root was read before the loop, which skips its entry
    have hsource : ReadFrom snapshot.scope ((snapshot.rootId, data) :: snapshot.nodes.entries)
        st.1 := by
      refine foldlM_ok_invariant (P := fun done st => (∀ e ∈ done, e ∈ snapshot.nodes.entries) →
        ReadFrom snapshot.scope ((snapshot.rootId, data) :: done) st.1) ?_ ?_ hloop (fun _ => id)
      · rintro done ⟨j, d⟩ st st' hf hst hsub
        have hf := hf fun e he => hsub e (List.mem_append_left _ he)
        rcases restoreNode_ok hst with ⟨hj, rfl⟩ | ⟨node, hj, hread, hr⟩
        · have hd : d = data := by
            have := Dict.get?_eq_some.mpr (hsub (j, d) (by simp))
            rw [show j = snapshot.rootId from hj, hdata] at this
            exact (Option.some.inj this).symm
          refine hf.congr ?_
          intro e
          rw [show j = snapshot.rootId from hj, hd]
          simp only [List.mem_cons, List.mem_append, List.not_mem_nil, or_false]
          tauto
        · obtain rfl : j = node.nodeId := hj
          exact hf.restored hread hr
      · intro _
        obtain ⟨-, -, -, hnode, -⟩ := new_ok hnew
        obtain ⟨⟨fields, hobj⟩, hroot⟩ := readSnapshotNode_reads hread
        constructor
        · intro j n hn
          rw [hnode] at hn
          split_ifs at hn with hj
          cases hn
          exact ⟨data, by simp [hj, not_not.mp hid], hroot⟩
        · intro j d hd
          obtain ⟨rfl, rfl⟩ := Prod.mk.inj (List.mem_singleton.mp hd)
          exact ⟨root, fields, hobj, hroot, by rw [hnode, if_pos (not_not.mp hid).symm]⟩
    have hl : st.1.LinkedSoFar st.1.nodes.keys g := hi.linked_loop hlinks
    have hkeys : g.nodes.keys = st.1.nodes.keys := by
      refine foldlM_ok_invariant (P := fun _ h => h.nodes.keys = st.1.nodes.keys) ?_ rfl hlinks
      intro _ c h h' hh hc
      rcases linkNode_ok hc with ⟨-, rfl⟩ | ⟨n, p, -, -, -, -, rfl⟩
      · exact hh
      · exact (Dict.keys_modify _ _ _).trans hh
    refine ⟨root, st, not_not.mp hid, by simpa using hparent, hi, hfirst, ?_, hl, hkeys, reached,
      hreach, hall⟩
    refine hsource.congr ?_
    intro e
    rw [List.mem_cons]
    exact ⟨Or.inr, fun he => he.elim (fun h => h ▸ hentry) id⟩

theorem fromSnapshot_ok (h : fromSnapshot snapshot = .ok g) : FromSnapshot snapshot g := by
  obtain ⟨root, st, hload⟩ := fromSnapshot_loaded h
  obtain ⟨reached, hreach, hall⟩ := hload.reached
  have hi := hload.indexed
  have hl := hload.linked
  refine ⟨wellFormed_of_linkedSoFar hi hload.noParent hl hreach hall,
    (hl.rootId.trans hi.rootId).trans hload.rootId, ?_, ?_, ?_⟩
  · rw [hl.identity, hi.identity, hload.rootId]
    rfl
  · rw [hl.rootId, hi.rootId, hl.node, hi.root]
    exact ⟨_, rfl⟩
  · intro j m hm
    rw [hl.node] at hm
    obtain ⟨n, hn, rfl⟩ := Option.map_eq_some_iff.mp hm
    exact (hi.read hn).runnableStatus

end MessageTreeGraph

end Switchboard.Messaging
