import Switchboard.Messaging.GraphOrder

/-!
# Restart: a tree written out and read back

`TreeSnapshot.to_json`, the validating `from_json`, and `from_snapshot` on what they
give. Prompts are not part of a snapshot. A tree that still has its root, and whose
ids are not empty, comes back with its nodes in order, the interrupted ones failed.
-/

namespace Switchboard.Messaging

namespace TreeSnapshot

def toJson (s : TreeSnapshot) : Json :=
  .obj [("scope", .obj [("platform", .str s.scope.platform), ("chat_id", .str s.scope.chatId)]),
    ("root_id", .str s.rootId), ("nodes", .obj s.nodes.entries)]

/-- `_legacy_scope`: the scope that snapshots once carried in their root node. -/
def legacyScope (rootId : String) (nodes : List (String × Json)) : Option MessageScope :=
  let root := match nodes.lookup rootId with
    | some (.obj fields) => some (Json.obj fields)
    | _ => (nodes.map Prod.snd).find? fun node => match node with
      | .obj fields => (Json.obj fields).getD "node_id" |>.toStr |> (· = rootId)
      | _ => false
  root.bind MessageTreeGraph.nodeScopeFromSnapshot

/-- The scope field, when it names both a platform and a chat. -/
def scopeField (data : Json) : Option MessageScope :=
  match data.getD "scope" with
  | .obj fields =>
    let platform := (Json.obj fields).getD "platform"
    let chatId := (Json.obj fields).getD "chat_id"
    if platform.isNull || chatId.isNull then none else some ⟨platform.toStr, chatId.toStr⟩
  | _ => none

def fromJson (data : Json) : Option TreeSnapshot :=
  match data with
  | .obj _ =>
    let rootId := data.getD "root_id"
    match data.getD "nodes" with
    | .obj nodes =>
      if rootId.isNull then none
      else
        (scopeField data <|> legacyScope rootId.toStr nodes).map fun scope =>
          { scope := scope, rootId := rootId.toStr, nodes := .ofList nodes }
    | _ => none
  | _ => none

theorem scopeField_toJson (s : TreeSnapshot) : scopeField s.toJson = some s.scope := by
  have hscope : s.toJson.getD "scope" =
      .obj [("platform", .str s.scope.platform), ("chat_id", .str s.scope.chatId)] := by
    simp [toJson, Json.getD]
  have hplatform : (Json.obj [("platform", .str s.scope.platform),
      ("chat_id", .str s.scope.chatId)]).getD "platform" = .str s.scope.platform := by
    simp [Json.getD]
  have hchat : (Json.obj [("platform", .str s.scope.platform),
      ("chat_id", .str s.scope.chatId)]).getD "chat_id" = .str s.scope.chatId := by
    simp [Json.getD, List.lookup_cons]
  unfold scopeField
  rw [hscope]
  simp only [hplatform, hchat]
  rfl

theorem fromJson_toJson (s : TreeSnapshot) : fromJson s.toJson = some s := by
  have hroot : s.toJson.getD "root_id" = .str s.rootId := by
    simp [toJson, Json.getD, List.lookup_cons]
  have hnodes : s.toJson.getD "nodes" = .obj s.nodes.entries := by
    simp [toJson, Json.getD, List.lookup_cons]
  have hscope := scopeField_toJson s
  unfold fromJson
  rw [hroot, hnodes, hscope]
  simp only [toJson, Json.isNull, Json.toStr, Dict.ofList_entries]
  rfl

end TreeSnapshot

/-! ## Reading a node back -/

/-- What is left of a node after it was written out and read back. -/
def MessageNode.reread (n : MessageNode) : MessageNode := { n with prompt := "", childrenIds := [] }

namespace MessageTreeGraph

variable {g h : MessageTreeGraph}

/-- The ids that a snapshot would refuse when empty. -/
structure Readable (n : MessageNode) : Prop where
  nodeId : n.nodeId ≠ ""
  status : n.statusMessageId ≠ some ""
  parent : n.parentId ≠ some ""
  reference : n.parentReferenceId ≠ some ""
  session : n.sessionId ≠ some ""
  runnable : n.state.runnable = true → n.statusMessageId.isSome
  linked : n.parentReferenceId = none → n.parentId = none

theorem optionalId_optionalJson {x : Option String} (hx : x ≠ some "") (field : String) :
    optionalId (optionalJson x) field = .ok x := by
  cases x with
  | none => rfl
  | some s =>
    have hs : s ≠ "" := fun h => hx (congrArg some h)
    simp [optionalId, optionalJson, hs]

theorem requiredId_str {s : String} (hs : s ≠ "") (field : String) :
    requiredId (.str s) field = .ok s := by
  simp [requiredId, optionalId, hs]

theorem nodeFromSnapshot_nodeToSnapshot {n : MessageNode} (hn : Readable n) :
    nodeFromSnapshot (nodeToSnapshot n) n.scope = .ok n.reread := by
  have hstate : stateFromSnapshot (nodeToSnapshot n) = .ok n.state := by
    simp [stateFromSnapshot, nodeToSnapshot, List.lookup_cons, MessageState.ofValue?_value]
  have hrun : ¬ (n.state.runnable && n.statusMessageId.isNone) = true := by
    intro h
    rw [Bool.and_eq_true] at h
    have := hn.runnable h.1
    rw [Option.isSome_iff_ne_none] at this
    exact this (Option.isNone_iff_eq_none.mp h.2)
  have hreference : (n.parentReferenceId <|> n.parentId) = n.parentReferenceId := by
    cases hr : n.parentReferenceId with
    | none => rw [hn.linked hr]; rfl
    | some r => rfl
  unfold nodeFromSnapshot
  simp only [bind_eq_ok, guard_eq_ok]
  refine ⟨n.state, hstate, n.statusMessageId, ?_, hrun, n.parentId, ?_, n.parentReferenceId, ?_,
    n.nodeId, ?_, n.sessionId, ?_, ?_⟩
  · exact optionalId_optionalJson hn.status _
  · exact optionalId_optionalJson hn.parent _
  · exact optionalId_optionalJson hn.reference _
  · exact requiredId_str hn.nodeId _
  · exact optionalId_optionalJson hn.session _
  · rw [hreference]
    rfl

theorem readSnapshotNode_nodeToSnapshot {n : MessageNode} (hn : Readable n) (invalid : String) :
    readSnapshotNode n.scope invalid (nodeToSnapshot n) = .ok n.reread := by
  have hscope : nodeScopeFromSnapshot (nodeToSnapshot n) = none := by
    simp [nodeScopeFromSnapshot, nodeToSnapshot, Json.getD, List.lookup_cons]
  have h := nodeFromSnapshot_nodeToSnapshot hn
  unfold readSnapshotNode
  rw [← h]
  split
  · rw [hscope]
  · next hno => exact absurd rfl (hno _)

/-! ## The first loop -/

theorem ownReference_of_free {owner : Dict String String} {id ref : String}
    (h : ∀ o, owner.get? ref = some o → o = id) :
    ownReference owner id ref = .ok (owner.set ref id) := by
  unfold ownReference
  split
  · next o ho => rw [if_pos (h o ho)]
  · rfl

/-- A round reads its node when the node is new and owns its references. -/
theorem restoreNode_returns {snapshot : TreeSnapshot} {key : String} {data : Json}
    {n : MessageNode} {st : MessageTreeGraph × Dict String String}
    (hread : readSnapshotNode snapshot.scope "Tree snapshot contains an invalid node" data = .ok n)
    (hkey : key = n.nodeId) (hdistinct : n.statusMessageId ≠ some n.nodeId)
    (hfresh : st.1.getNode n.nodeId = none)
    (hfree : ∀ r o, (r = n.nodeId ∨ n.statusMessageId = some r) → st.2.get? r = some o →
      o = n.nodeId) : ∃ st', restoreNode snapshot st (key, data) = .ok st' := by
  unfold restoreNode
  split_ifs
  · exact ⟨st, rfl⟩
  · simp only [bind_eq_ok, guard_eq_ok]
    have hcontains : ¬ st.1.nodes.contains n.nodeId = true := by
      rw [Dict.contains, Bool.not_eq_true, Option.isSome_eq_false_iff, Option.isNone_iff_eq_none]
      exact hfresh
    have hprompt := ownReference_of_free fun o ho => hfree n.nodeId o (Or.inl rfl) ho
    cases hs : n.statusMessageId with
    | none =>
      refine ⟨({ st.1 with nodes := st.1.nodes.set n.nodeId n }, st.2.set n.nodeId n.nodeId),
        n, hread, not_not.mpr hkey, hdistinct, hcontains, _, hprompt, ?_⟩
      rw [hs]
      rfl
    | some s =>
      have hsid : s ≠ n.nodeId := by
        rintro rfl
        exact hdistinct hs
      have hstatus : ownReference (st.2.set n.nodeId n.nodeId) n.nodeId s =
          .ok ((st.2.set n.nodeId n.nodeId).set s n.nodeId) := by
        refine ownReference_of_free fun o ho => ?_
        rw [Dict.get?_set_of_ne _ _ hsid] at ho
        exact hfree s o (Or.inr hs) ho
      refine ⟨({ st.1 with
          nodes := st.1.nodes.set n.nodeId n
          statusToNode := st.1.statusToNode.set s n.nodeId },
          (st.2.set n.nodeId n.nodeId).set s n.nodeId),
        n, hread, not_not.mpr hkey, hdistinct, hcontains, _, hprompt, ?_⟩
      rw [hs]
      exact bind_eq_ok.mpr ⟨_, hstatus, rfl⟩

/-- A graph that can be written out and read back. -/
structure Writable (g : MessageTreeGraph) : Prop extends WellFormed g where
  ordered : g.Ordered
  readable : ∀ {id n}, g.getNode id = some n → Readable n

/-- Between two rounds of the first loop on the snapshot of `g`. -/
structure Rereading (g : MessageTreeGraph) (root : MessageNode) (done : List String)
    (st : MessageTreeGraph × Dict String String) : Prop where
  indexed : Indexed g.identity.scope root.reread st
  node : ∀ j, st.1.getNode j =
    if j = g.rootId ∨ j ∈ done then (g.getNode j).map MessageNode.reread else none
  keys : st.1.nodes.keys = g.rootId :: done.filter fun j => j ≠ g.rootId

theorem Writable.rereading_step (hg : g.Writable) {root : MessageNode} {done : List String}
    {id : String} {n : MessageNode} {st : MessageTreeGraph × Dict String String}
    (hn : g.getNode id = some n) (hid : id ∉ done) (hst : g.Rereading root done st) :
    ∃ st', restoreNode g.snapshot st (id, nodeToSnapshot n) = .ok st' ∧
      g.Rereading root (done ++ [id]) st' := by
  have hkey := hg.keyed hn
  have hscope : n.scope = g.snapshot.scope := hg.ordered.scope hn
  have hread := readSnapshotNode_nodeToSnapshot (hg.readable hn)
    "Tree snapshot contains an invalid node"
  rw [hscope] at hread
  have hdistinct : n.statusMessageId ≠ some n.nodeId := by
    intro hs
    have hnone := hg.disjoint (hg.status.mpr ⟨n, hn, hs⟩)
    rw [hkey, hn] at hnone
    cases hnone
  by_cases hroot : id = g.rootId
  · -- the root was read before the loop
    refine ⟨st, ?_, hst.indexed, ?_, ?_⟩
    · unfold restoreNode
      exact if_pos hroot
    · intro j
      rw [hst.node]
      subst hroot
      simp only [List.mem_append, List.mem_singleton]
      split_ifs with h1 h2 h2
      · rfl
      · exact absurd (h1.imp_right Or.inl) h2
      · exact absurd (h2.elim Or.inl fun h => h.elim Or.inr Or.inl) h1
      · rfl
    · rw [hst.keys, List.filter_append]
      simp [hroot]
  · have hfresh : st.1.getNode n.reread.nodeId = none := by
      rw [hst.node, if_neg]
      rintro (h | h)
      · exact hroot (hkey.symm.trans h)
      · exact hid ((hkey.symm.trans (rfl : n.nodeId = n.reread.nodeId)) ▸ h)
    have hback : ∀ {j m}, st.1.getNode j = some m → ∃ k, g.getNode j = some k ∧ m = k.reread := by
      intro j m hm
      rw [hst.node] at hm
      split_ifs at hm
      obtain ⟨k, hk, rfl⟩ := Option.map_eq_some_iff.mp hm
      exact ⟨k, hk, rfl⟩
    have hfree : ∀ r o, (r = n.reread.nodeId ∨ n.reread.statusMessageId = some r) →
        st.2.get? r = some o → o = n.reread.nodeId := by
      intro r o hr ho
      obtain ⟨m, hm, hrm⟩ := hst.indexed.owner.mp ho
      obtain ⟨k, hk, rfl⟩ := hback hm
      have howner : ∀ {i x}, g.getNode i = some x → (r = i ∨ x.statusMessageId = some r) →
          (g.resolveReference r).map (·.1.nodeId) = some i := fun hx hrx =>
        (hg.resolves_to_iff hx).mpr hrx
      have h1 := howner hk hrm
      have h2 := howner hn (hr.imp_left fun h => h.trans hkey)
      rw [h1] at h2
      exact (Option.some.inj h2).trans hkey.symm
    obtain ⟨st', hst'⟩ : ∃ st', restoreNode g.snapshot st (id, nodeToSnapshot n) = .ok st' :=
      restoreNode_returns hread hkey.symm hdistinct hfresh hfree
    refine ⟨st', hst', ?_⟩
    rcases restoreNode_ok hst' with ⟨h, -⟩ | ⟨node, -, hnode, hr⟩
    · exact absurd h hroot
    · simp only [hread] at hnode
      cases hnode
      refine ⟨hst.indexed.restored hr, ?_, ?_⟩
      · intro j
        have hrid : n.reread.nodeId = id := hkey
        rw [hr.getNode, hst.node, hrid]
        by_cases hj : j = id
        · simp [hj, hn]
        · simp [hj]
      · rw [restoreNode_keys hst', hst.keys, List.filter_append]
        have hne : ¬ id = g.snapshot.rootId := hroot
        simp [hne, hroot]

theorem snapshot_get? (g : MessageTreeGraph) (id : String) :
    g.snapshot.nodes.get? id = (g.getNode id).map nodeToSnapshot := by
  ext data
  rw [Dict.get?_eq_some, Option.map_eq_some_iff]
  simp only [snapshot, List.mem_map, Prod.mk.injEq]
  constructor
  · rintro ⟨⟨k, n⟩, hmem, rfl, rfl⟩
    exact ⟨n, Dict.get?_eq_some.mpr hmem, rfl⟩
  · rintro ⟨n, hn, rfl⟩
    exact ⟨(id, n), Dict.get?_eq_some.mp hn, rfl, rfl⟩

theorem snapshot_keys (g : MessageTreeGraph) :
    g.snapshot.nodes.entries.map Prod.fst = g.nodes.keys := by
  simp only [snapshot, List.map_map]
  rfl

/-- The first loop reads every node of the graph, in order. -/
structure Reread (g : MessageTreeGraph) (root : MessageNode)
    (st : MessageTreeGraph × Dict String String) : Prop where
  indexed : Indexed g.identity.scope root.reread st
  node : ∀ j, st.1.getNode j = (g.getNode j).map MessageNode.reread
  keys : st.1.nodes.keys = g.nodes.keys

theorem Writable.rereading_start (hg : g.Writable) {root : MessageNode}
    (hroot : g.getNode g.rootId = some root) : ∃ start, new root.reread = .ok start ∧
      g.Rereading root [] (start, match root.reread.statusMessageId with
        | some s => (Dict.empty.set root.reread.nodeId root.reread.nodeId).set s root.reread.nodeId
        | none => Dict.empty.set root.reread.nodeId root.reread.nodeId) := by
  have hkey : root.reread.nodeId = g.rootId := (hg.keyed hroot :)
  have hread := readSnapshotNode_ok (readSnapshotNode_nodeToSnapshot (hg.readable hroot) "")
  rw [hg.ordered.scope hroot] at hread
  obtain ⟨start, hstart⟩ : ∃ start, new root.reread = .ok start := by
    unfold new
    rw [if_neg]
    · exact ⟨_, rfl⟩
    · intro hs
      have hnone := hg.disjoint (hg.status.mpr ⟨root, hroot, hs⟩)
      rw [hkey, hroot] at hnone
      cases hnone
  obtain ⟨-, -, -, hnode, -⟩ := new_ok hstart
  refine ⟨start, hstart, indexed_new hread hstart, ?_, ?_⟩
  · intro j
    rw [hnode, hkey]
    by_cases hj : j = g.rootId
    · simp [hj, hroot]
    · simp [hj]
  · unfold new at hstart
    split_ifs at hstart
    cases hstart
    rw [← hkey]
    rfl

theorem Writable.rereads (hg : g.Writable) {root : MessageNode}
    (hroot : g.getNode g.rootId = some root) {start : MessageTreeGraph × Dict String String}
    (hstart : g.Rereading root [] start) : ∃ st,
      g.snapshot.nodes.entries.foldlM (restoreNode g.snapshot) start = .ok st ∧
        g.Reread root st := by
  obtain ⟨st, hloop, hst⟩ := foldlM_builds
    (P := fun (done : List (String × Json)) st => g.Rereading root (done.map Prod.fst) st)
    (l := g.snapshot.nodes.entries) (f := restoreNode g.snapshot) (by
      rintro done ⟨id, data⟩ st hpre hst
      have hmem : (id, data) ∈ g.snapshot.nodes.entries := hpre.subset (by simp)
      have hget := Dict.get?_eq_some.mpr hmem
      rw [snapshot_get?] at hget
      obtain ⟨n, hn, rfl⟩ := Option.map_eq_some_iff.mp hget
      have hid : id ∉ done.map Prod.fst := by
        have hnd := g.snapshot.nodes.nodup.sublist (hpre.sublist.map Prod.fst)
        rw [List.map_append, List.nodup_append] at hnd
        exact fun h => hnd.2.2 id h id (List.mem_singleton_self id) rfl
      rw [List.map_append]
      exact hg.rereading_step hn hid hst) hstart
  obtain ⟨rest, hrest⟩ := hg.ordered.rootFirst hroot
  refine ⟨st, hloop, hst.indexed, ?_, ?_⟩
  · intro j
    rw [hst.node, snapshot_keys]
    split_ifs with hj
    · rfl
    · rw [not_or, ← Dict.get?_eq_none] at hj
      have hnone : g.getNode j = none := hj.2
      rw [hnone]
      rfl
  · have hnd := g.nodes.keys_nodup
    rw [hrest, List.nodup_cons] at hnd
    rw [hst.keys, snapshot_keys, hrest, List.filter_cons_of_neg (by simp)]
    refine congrArg _ (List.filter_eq_self.mpr fun j hj => ?_)
    simp only [decide_eq_true_eq]
    rintro rfl
    exact hnd.1 hj

/-! ## The second loop -/

theorem Indexed.resolves_from {scope : MessageScope} {root : MessageNode}
    {st : MessageTreeGraph × Dict String String} (hi : Indexed scope root st) {p r : String}
    {pn : MessageNode} (hp : st.1.getNode p = some pn)
    (hr : r = p ∨ pn.statusMessageId = some r) :
    (st.1.resolveReference r).map (·.1.nodeId) = some p := by
  unfold resolveReference
  rcases hr with rfl | hs
  · rw [hp]
    exact congrArg some (hi.keyed hp)
  · have hidx := hi.status.mpr ⟨pn, hp, hs⟩
    have hne : p ≠ "" := by
      rw [← hi.keyed hp]
      exact (hi.read hp).nonempty
    rw [hi.disjoint hidx]
    simp only [findNodeByStatusMessage, hidx, if_neg hne, hp]
    exact congrArg some (hi.keyed hp)

theorem linkNode_returns {id : String}
    (hexact : ∀ n, h.getNode id = some n → n.nodeId ≠ h.rootId → h.HasExactParent n) :
    ∃ h', h.linkNode id = .ok h' := by
  unfold linkNode
  cases hn : h.getNode id with
  | none => exact ⟨h, rfl⟩
  | some n =>
    simp only
    split_ifs with hroot
    · exact ⟨h, rfl⟩
    · obtain ⟨p, r, hp, hpn, hr, hres⟩ := hexact n hn hroot
      have hcontains : ¬ h.nodes.contains p = false := by
        rw [Bool.not_eq_false, Dict.contains_iff]
        exact hpn
      simp only [hp, hr, if_neg hcontains, hres, ne_eq, not_true_eq_false, if_false]
      exact ⟨_, rfl⟩

/-- The second loop links every node below the parent it had. -/
theorem Writable.relinks (hg : g.Writable) {root : MessageNode}
    (hroot : g.getNode g.rootId = some root)
    {st : MessageTreeGraph × Dict String String} (hst : g.Reread root st) :
    ∃ h, st.1.nodes.keys.foldlM linkNode st.1 = .ok h ∧
      st.1.LinkedSoFar st.1.nodes.keys h ∧ h.nodes.keys = st.1.nodes.keys := by
  have hi := hst.indexed
  have hrootId : st.1.rootId = g.rootId := hi.rootId.trans (hg.keyed hroot :)
  refine foldlM_builds
    (P := fun done h => st.1.LinkedSoFar done h ∧ h.nodes.keys = st.1.nodes.keys) ?_ ?_
  · rintro done c h - ⟨hl, hkeys⟩
    have hsame : ∀ j, (h.getNode j).map (·.nodeId) = (st.1.getNode j).map (·.nodeId) := by
      intro j
      rw [hl.node, Option.map_map]
      rfl
    obtain ⟨h', hh'⟩ : ∃ h', h.linkNode c = .ok h' := by
      refine linkNode_returns fun m hm hne => ?_
      rw [hl.node, hst.node, Option.map_map] at hm
      obtain ⟨n, hn, rfl⟩ := Option.map_eq_some_iff.mp hm
      have hroot : c ≠ g.rootId := by
        rintro rfl
        exact hne ((hg.keyed hn).trans (hrootId.symm.trans hl.rootId.symm))
      obtain ⟨p, pn, r, hp, hpn, hr, hrp⟩ := hg.parent hn hroot
      have hpst : st.1.getNode p = some pn.reread := by rw [hst.node, hpn]; rfl
      refine ⟨p, r, hp, ?_, hr, ?_⟩
      · rw [hl.node, hpst]
        exact ⟨_, rfl⟩
      · rw [resolveOwner_congr hl.status hsame]
        exact hi.resolves_from hpst hrp
    refine ⟨h', hh', hl.link hi.keyed hh', ?_⟩
    rcases linkNode_ok hh' with ⟨-, rfl⟩ | ⟨n, p, -, -, -, -, rfl⟩
    · exact hkeys
    · exact (Dict.keys_modify _ _ _).trans hkeys
  · refine ⟨⟨rfl, rfl, rfl, ?_, by simp⟩, rfl⟩
    intro j
    cases hn : st.1.getNode j with
    | none => rfl
    | some n => rw [Option.map_some, List.filter_nil, ← (hi.read hn).noChildren]

/-! ## The whole graph -/

/-- `h` is `g` read back: the same nodes in the same order, without their prompts. -/
structure Reloaded (g h : MessageTreeGraph) : Prop where
  rootId : h.rootId = g.rootId
  identity : h.identity = g.identity
  keys : h.nodes.keys = g.nodes.keys
  node : ∀ j, h.getNode j = (g.getNode j).map fun n => { n with prompt := "" }

theorem Writable.reloaded (hg : g.Writable) {root : MessageNode}
    (hroot : g.getNode g.rootId = some root) {st : MessageTreeGraph × Dict String String}
    (hst : g.Reread root st) (hl : st.1.LinkedSoFar st.1.nodes.keys h)
    (hkeys : h.nodes.keys = st.1.nodes.keys) : g.Reloaded h := by
  have hrootId : st.1.rootId = g.rootId := hst.indexed.rootId.trans (hg.keyed hroot :)
  have hparent : ∀ j, st.1.parentOf j = g.parentOf j := by
    intro j
    unfold parentOf
    rw [hst.node]
    cases g.getNode j <;> rfl
  refine ⟨hl.rootId.trans hrootId, ?_, hkeys.trans hst.keys, ?_⟩
  · rw [hl.identity, hst.indexed.identity]
    have hid : root.reread.nodeId = g.identity.rootId :=
      (hg.keyed hroot).trans hg.ordered.rootId.symm
    rw [hid]
  · intro j
    rw [hl.node, hst.node]
    cases hn : g.getNode j with
    | none => rfl
    | some n =>
      have hchildren : st.1.nodes.keys.filter (st.1.LinksBelow j) = n.childrenIds := by
        rw [hg.ordered.children hn, hst.keys]
        refine List.filter_congr fun c _ => decide_eq_decide.mpr ?_
        rw [← hparent]
        refine and_iff_right_of_imp ?_
        -- the root has no parent
        rintro hc rfl
        change st.1.parentOf st.1.rootId = some j at hc
        rw [hparent, hrootId] at hc
        simp [parentOf, hroot, (hg.root hroot).1] at hc
      simp only [Option.map_some, hchildren]
      rfl

/-- The children lists are the same, so the root still reaches every node. -/
theorem Writable.reaches (hg : g.Writable) {root : MessageNode}
    (hroot : g.getNode g.rootId = some root) (hr : g.Reloaded h) :
    ∃ reached, h.getDescendants h.rootId = .ok reached ∧
      reached.toFinset = h.nodes.keys.toFinset := by
  have hchildren : h.childrenOf = g.childrenOf := by
    funext j
    simp only [childrenOf, hr.node]
    cases g.getNode j <;> rfl
  have hsame : h.getDescendants h.rootId = g.getDescendants g.rootId := by
    have hcontains : h.nodes.contains h.rootId = g.nodes.contains g.rootId := by
      have hh := hr.node g.rootId
      rw [← hr.rootId] at hh
      have h1 : (h.getNode h.rootId).isSome = (g.getNode g.rootId).isSome := by
        rw [hh, hr.rootId]
        cases g.getNode g.rootId <;> rfl
      exact h1
    unfold getDescendants
    rw [hcontains, hchildren, hr.keys, hr.rootId]
  obtain ⟨reached, hreached⟩ := hg.getDescendants_ok g.rootId
  refine ⟨reached, hsame.trans hreached, ?_⟩
  have hcontains : ¬ g.nodes.contains g.rootId = false := by
    rw [Bool.not_eq_false, Dict.contains_iff]
    exact ⟨root, hroot⟩
  have hexplore : explore g.childrenOf g.nodes.keys.length [g.rootId] = some reached := by
    unfold getDescendants at hreached
    rw [if_neg hcontains] at hreached
    split at hreached
    · next l hl =>
      cases hreached
      exact hl
    · cases hreached
  ext j
  rw [List.mem_toFinset, List.mem_toFinset, hr.keys, Dict.mem_keys, mem_explore hexplore]
  constructor
  · intro hd
    induction hd with
    | refl => exact ⟨root, hroot⟩
    | tail _ hc _ =>
      obtain ⟨n, hn, hc⟩ := mem_childrenOf.mp hc
      obtain ⟨cn, hcn, -⟩ := (hg.children hn).mp hc
      exact ⟨cn, hcn⟩
  · rintro ⟨n, hn⟩
    exact (hg.below_root hg.parentsPresent hn).2

/-- A writable graph that has its root is accepted when it is read back. -/
theorem Writable.fromSnapshot_snapshot (hg : g.Writable) {root : MessageNode}
    (hroot : g.getNode g.rootId = some root) :
    ∃ h, fromSnapshot g.snapshot = .ok h ∧ g.Reloaded h := by
  obtain ⟨start, hnew, hstart⟩ := hg.rereading_start hroot
  obtain ⟨st, hloop, hst⟩ := hg.rereads hroot hstart
  obtain ⟨h, hlinks, hl, hkeys⟩ := hg.relinks hroot hst
  have hr := hg.reloaded hroot hst hl hkeys
  obtain ⟨reached, hreached, hall⟩ := hg.reaches hroot hr
  refine ⟨h, ?_, hr⟩
  have hdata : g.snapshot.nodes.get? g.snapshot.rootId = some (nodeToSnapshot root) := by
    rw [snapshot_get?]
    exact (congrArg _ hroot).trans rfl
  have hread := readSnapshotNode_nodeToSnapshot (hg.readable hroot)
    "Tree snapshot contains an invalid root node"
  have hscope : root.scope = g.snapshot.scope := hg.ordered.scope hroot
  rw [hscope] at hread
  unfold fromSnapshot
  simp only [hdata, bind_eq_ok, guard_eq_ok]
  refine ⟨_, rfl, root.reread, hread, not_not.mpr (hg.keyed hroot :), start, hnew, st, hloop, ?_, h,
    hlinks, reached, hreached, if_pos hall⟩
  simp [MessageNode.reread, (hg.root hroot).1, (hg.root hroot).2]

/-! ## Trees -/

/-- No status id and no session id is empty. -/
def ProperIds (g : MessageTreeGraph) : Prop :=
  ∀ id n, g.getNode id = some n → n.statusMessageId ≠ some "" ∧ n.sessionId ≠ some ""

end MessageTreeGraph

open MessageTreeGraph

/-- A node after a restart: without its prompt, and failed if it was interrupted. -/
def MessageNode.restarted (n : MessageNode) : MessageNode :=
  { n with prompt := "", state := if n.state.runnable then .error else n.state }

/-- `t'` is `t` after a restart. -/
structure Restarted (t t' : MessageTree) : Prop where
  rootId : t'.graph.rootId = t.graph.rootId
  identity : t'.graph.identity = t.graph.identity
  order : t'.graph.nodes.keys = t.graph.nodes.keys
  node : ∀ id, t'.graph.getNode id = (t.graph.getNode id).map MessageNode.restarted
  statusIndex : ∀ s, t'.graph.statusToNode.get? s = t.graph.statusToNode.get? s
  /-- The stale targets are the interrupted nodes, in order. -/
  stale : t'.restoredStaleTargets = t.graph.nodes.keys.filterMap (MessageTree.staleTarget t.graph)
  interrupted : t'.restoredStaleTargets.map (·.nodeId) = t.graph.nodes.keys.filter fun id =>
    (t.graph.getNode id).any (·.state.runnable)
  idle : t'.active = none ∧ t'.queue.deque = []
  snapshot : t'.restoredSnapshot = some t'.graph.snapshot

/-- `TreeSnapshot.from_json`, then `MessageTree.from_snapshot`. -/
def restartFrom (data : Json) : Option (Except Fault MessageTree) :=
  (TreeSnapshot.fromJson data).map MessageTree.fromSnapshot

namespace TreeRun

variable {r : TreeRun}

theorem writable (hr : treeSystem.Reachable r) (hids : r.tree.graph.ProperIds) :
    r.tree.graph.Writable where
  toWellFormed := (invariant_of_reachable hr).scheduled.graph
  ordered := ordered_of_reachable hr
  readable := by
    have hs := (invariant_of_reachable hr).scheduled
    have hg := hs.graph
    intro id n hn
    have hkey := hg.keyed hn
    by_cases hroot : id = r.tree.graph.rootId
    · obtain ⟨hp, href⟩ := hg.root (hroot ▸ hn)
      refine ⟨hkey ▸ hg.nonempty hn, (hids id n hn).1, ?_, ?_, (hids id n hn).2,
        hs.status hn, fun _ => hp⟩
      · simp [hp]
      · simp [href]
    · obtain ⟨p, pn, ref, hp, hpn, href, hrp⟩ := hg.parent hn hroot
      have hne := hg.nonempty hpn
      refine ⟨hkey ▸ hg.nonempty hn, (hids id n hn).1, ?_, ?_, (hids id n hn).2,
        hs.status hn, ?_⟩
      · rw [hp]
        exact fun h => hne (Option.some.inj h)
      · rw [href]
        rintro h
        cases h
        rcases hrp with rfl | hst
        · exact hne rfl
        · exact (hids p pn hpn).1 hst
      · rw [href]
        exact fun h => absurd h (by simp)

/-- Reading back the snapshot of a reachable tree that still has its root. -/
theorem restarts (hr : treeSystem.Reachable r) (hids : r.tree.graph.ProperIds)
    {root : MessageNode} (hroot : r.tree.graph.getNode r.tree.graph.rootId = some root) :
    ∃ t', MessageTree.fromSnapshot r.tree.graph.snapshot = .ok t' ∧ Restarted r.tree t' := by
  have hs := (invariant_of_reachable hr).scheduled
  obtain ⟨h, hload, hre⟩ := (writable hr hids).fromSnapshot_snapshot hroot
  obtain ⟨t', ht', hi⟩ := MessageTree.fromSnapshot_interrupted hload
  have hnode : ∀ id, t'.graph.getNode id =
      (r.tree.graph.getNode id).map MessageNode.restarted := by
    intro id
    rw [hi.graph.node, hre.node, Option.map_map]
    cases hn : r.tree.graph.getNode id with
    | none => rfl
    | some n =>
      have hkey : id ∈ h.nodes.keys := by
        rw [hre.keys]
        exact Dict.mem_keys.mpr ⟨n, hn⟩
      simp only [Option.map_some, Function.comp, hkey, true_and, MessageNode.restarted]
      split_ifs <;> rfl
  have hstale : MessageTree.staleTarget h = MessageTree.staleTarget r.tree.graph := by
    funext id
    simp only [MessageTree.staleTarget, hre.node]
    cases r.tree.graph.getNode id <;> rfl
  have htargets : t'.restoredStaleTargets =
      r.tree.graph.nodes.keys.filterMap (MessageTree.staleTarget r.tree.graph) := by
    rw [hi.stale, hstale, hre.keys]
  refine ⟨t', ht', ?_, ?_, ?_, hnode, ?_, htargets, ?_, ⟨hi.active, hi.queue⟩, hi.snapshot⟩
  · exact hi.graph.rootId.trans hre.rootId
  · exact hi.graph.identity.trans hre.identity
  · exact hi.graph.keys.trans hre.keys
  · intro s
    have hg' := (MessageTree.fromSnapshot_spec ht').1.graph
    ext id
    rw [hg'.status, hs.graph.status]
    simp only [hnode, Option.map_eq_some_iff]
    constructor
    · rintro ⟨-, ⟨n, hn, rfl⟩, hst⟩
      exact ⟨n, hn, hst⟩
    · rintro ⟨n, hn, hst⟩
      exact ⟨_, ⟨n, hn, rfl⟩, hst⟩
  · rw [htargets, List.map_filterMap, ← List.filterMap_eq_filter]
    refine List.filterMap_congr fun id _ => ?_
    cases hn : r.tree.graph.getNode id with
    | none => simp [MessageTree.staleTarget, hn, Option.guard]
    | some n =>
      by_cases hrun : n.state.runnable = true
      · obtain ⟨s, hst⟩ := Option.isSome_iff_exists.mp (hs.status hn hrun)
        simp [MessageTree.staleTarget, hn, hrun, hst, Option.guard, hs.graph.keyed hn]
      · simp [MessageTree.staleTarget, hn, hrun, Option.guard]

/-- A restart keeps the tree but for prompts and interrupted nodes, and a second
restart changes nothing. -/
theorem restart_round_trip (hr : treeSystem.Reachable r) {root : MessageNode}
    (hroot : r.tree.graph.getNode r.tree.graph.rootId = some root)
    (hids : r.tree.graph.ProperIds) :
    ∃ t', restartFrom r.tree.graph.snapshot.toJson = some (.ok t') ∧ Restarted r.tree t' ∧
      ∃ snapshot t'', t'.restoredSnapshot = some snapshot ∧
        restartFrom snapshot.toJson = some (.ok t'') ∧ t''.graph.nodes = t'.graph.nodes ∧
        t''.graph.rootId = t'.graph.rootId ∧ t''.graph.identity = t'.graph.identity ∧
        (∀ s, t''.graph.statusToNode.get? s = t'.graph.statusToNode.get? s) ∧
        t''.restoredSnapshot = t'.restoredSnapshot ∧ t''.restoredStaleTargets = [] := by
  obtain ⟨t', ht', hre⟩ := restarts hr hids hroot
  have hr' : treeSystem.Reachable ⟨t', false, []⟩ := .start (.restored ht')
  have hids' : t'.graph.ProperIds := by
    intro id m hm
    rw [hre.node] at hm
    obtain ⟨n, hn, rfl⟩ := Option.map_eq_some_iff.mp hm
    exact hids id n hn
  have hroot' : t'.graph.getNode t'.graph.rootId = some root.restarted := by
    rw [hre.node, hre.rootId, hroot]
    rfl
  obtain ⟨t'', ht'', hre'⟩ := restarts hr' hids' hroot'
  have hidle : ∀ n : MessageNode, n.restarted.state.runnable = false := by
    intro n
    unfold MessageNode.restarted
    cases h : n.state.runnable <;> simp [h]
  have htwice : ∀ n : MessageNode, n.restarted.restarted = n.restarted := by
    intro n
    rw [MessageNode.restarted, hidle]
    rfl
  have hnodes : t''.graph.nodes = t'.graph.nodes := by
    refine Dict.eq_of_keys_get? hre'.order fun id => ?_
    have h := hre'.node id
    rw [hre.node, Option.map_map] at h
    refine h.trans (Eq.trans ?_ (hre.node id).symm)
    congr 1
    funext n
    exact htwice n
  refine ⟨t', ?_, hre, t'.graph.snapshot, t'', hre.snapshot, ?_, hnodes, hre'.rootId,
    hre'.identity, hre'.statusIndex, ?_, ?_⟩
  · rw [restartFrom, TreeSnapshot.fromJson_toJson, Option.map_some, ht']
  · rw [restartFrom, TreeSnapshot.fromJson_toJson, Option.map_some, ht'']
  · have hsnapshot : t''.graph.snapshot = t'.graph.snapshot := by
      simp only [MessageTreeGraph.snapshot, hre'.identity, hre'.rootId, hnodes]
    rw [hre'.snapshot, hre.snapshot, hsnapshot]
  · rw [hre'.stale, List.filterMap_eq_nil_iff]
    intro id _
    simp only [MessageTree.staleTarget, hre.node]
    cases r.tree.graph.getNode id with
    | none => rfl
    | some n => simp [hidle]

end TreeRun

/-! ## What a restart loses -/

section Example

theorem sampleTree_root :
    sampleTree.graph.getNode sampleTree.graph.rootId = some sampleRoot := rfl

theorem sampleTree_properIds : sampleTree.graph.ProperIds := by
  intro id n hn
  have hget : sampleTree.graph.getNode id = if id = "10" then some sampleRoot else none :=
    Dict.get?_set _ _ _ _
  rw [hget] at hn
  split_ifs at hn
  cases hn
  decide

/-- A root whose status message has an empty id. -/
def unnamedRoot : MessageNode := { sampleRoot with statusMessageId := some "" }

def unnamedTree : MessageTree where
  graph :=
    { rootId := "10", identity := ⟨⟨"telegram", "7"⟩, "10"⟩
      nodes := Dict.empty.set "10" unnamedRoot, statusToNode := Dict.empty.set "" "10" }

theorem unnamedTree_init : TreeRun.Init ⟨unnamedTree, true, []⟩ :=
  have hroot : MessageTreeGraph.RootNode unnamedRoot := ⟨by decide, ⟨rfl, rfl⟩, rfl⟩
  .fresh hroot rfl rfl rfl

/-- A restart loses the prompts; a tree without its root, or with an empty status
id, is not accepted. -/
theorem restart_losses :
    (¬ ∀ r t', treeSystem.Reachable r → restartFrom r.tree.graph.snapshot.toJson =
      some (.ok t') → ∀ id, (t'.graph.getNode id).map (·.prompt) =
        (r.tree.graph.getNode id).map (·.prompt)) ∧
    (¬ ∀ r, treeSystem.Reachable r → ∃ t', restartFrom r.tree.graph.snapshot.toJson =
      some (.ok t')) ∧
    ¬ ∀ r, treeSystem.Reachable r → (r.tree.graph.getNode r.tree.graph.rootId).isSome →
      ∃ t', restartFrom r.tree.graph.snapshot.toJson = some (.ok t') := by
  refine ⟨?_, ?_, ?_⟩
  · intro h
    obtain ⟨t', ht', hre⟩ := TreeRun.restarts (.start sampleTree_init) sampleTree_properIds
      sampleTree_root
    have hprompt := h _ t' (.start sampleTree_init) (by
      rw [restartFrom, TreeSnapshot.fromJson_toJson, Option.map_some, ht']) "10"
    rw [hre.node] at hprompt
    revert hprompt
    decide +kernel
  · intro h
    obtain ⟨t', ht'⟩ := h (TreeRun.next ⟨sampleTree, true, []⟩
      (.removeMessageSubtree "10" givenOrder))
      (TreeRun.reachable_next (.start sampleTree_init) trivial)
    rw [restartFrom, TreeSnapshot.fromJson_toJson] at ht'
    cases ht'
  · intro h
    obtain ⟨t', ht'⟩ := h _ (.start unnamedTree_init) rfl
    rw [restartFrom, TreeSnapshot.fromJson_toJson] at ht'
    cases ht'

theorem restart_round_trip_sample : ∃ t',
    restartFrom sampleTree.graph.snapshot.toJson = some (.ok t') ∧ Restarted sampleTree t' :=
  let ⟨t', h, hre, _⟩ := TreeRun.restart_round_trip (.start sampleTree_init)
    sampleTree_root sampleTree_properIds
  ⟨t', h, hre⟩

end Example

end Switchboard.Messaging
