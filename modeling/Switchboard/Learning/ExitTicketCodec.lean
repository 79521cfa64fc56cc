import Switchboard.Learning.ExitTickets

/-!
# Reading a compact exit ticket back

The fields of a ticket have no separator in them, so that they are found again. One list of
evidence looks like none.
-/

namespace Switchboard.Learning.ExitTickets

variable {value name : String} {maxBytes : ℕ} {evidence : List String}

/-! ## Splitting -/

theorem split_intercalate (separator : Char) {parts : List String} (hparts : parts ≠ [])
    (h : ∀ part ∈ parts, separator ∉ part.toList) :
    split separator ((String.singleton separator).intercalate parts) = parts := by
  have hlists : ∀ part ∈ parts.map String.toList, separator ∉ part := by
    intro part hpart
    obtain ⟨text, htext, rfl⟩ := List.mem_map.mp hpart
    exact h text htext
  rw [split, String.toList_intercalate, String.toList_singleton,
    List.splitOn_intercalate separator hlists (by simpa using hparts), List.map_map]
  simp [Function.comp_def]

theorem partition_renderField {key raw : String} (hkey : '=' ∉ key.toList) :
    partition (renderField (key, raw)) = some (key, raw) := by
  have htext : (renderField (key, raw)).toList = key.toList ++ '=' :: raw.toList := by
    simp [renderField]
  have hall : ∀ c ∈ key.toList, decide (c ≠ '=') = true := by
    intro c hc
    rw [decide_eq_true_eq]
    rintro rfl
    exact hkey hc
  rw [partition, htext, if_pos (by simp), List.takeWhile_append_of_pos hall,
    List.dropWhile_append_of_pos hall]
  simp

/-- The fields of a text are found in their order. -/
theorem addFields_eq {fields : List (String × String)}
    (hkeys : ∀ field ∈ fields, field.1 ≠ "" ∧ '=' ∉ field.1.toList)
    (hnodup : (fields.map Prod.fst).Nodup) :
    ∃ found, (fields.map renderField).foldlM addField .empty = .ok found ∧
      found.entries = fields := by
  induction fields using List.reverseRecOn with
  | nil => exact ⟨.empty, rfl, rfl⟩
  | append_singleton fields field ih =>
    rw [List.map_append, List.nodup_append] at hnodup
    obtain ⟨found, hfound, hentries⟩ := ih (fun other hother =>
      hkeys other (List.mem_append_left _ hother)) hnodup.1
    have hfield := hkeys field (by simp)
    have hnew : field.1 ∉ found.keys := by
      rw [Dict.keys, hentries]
      exact fun hmem => hnodup.2.2 _ hmem _ (by simp) rfl
    have habsent : found.contains field.1 = false := by
      rw [Dict.contains, Dict.get?_eq_none.mpr hnew]
      rfl
    refine ⟨found.set field.1 field.2, ?_, ?_⟩
    · rw [List.map_append, List.foldlM_append, hfound]
      show (addField found (renderField field) >>= pure) = _
      rw [addField, partition_renderField hfield.2]
      simp [hfield.1, habsent]
    · rw [Dict.entries_set_of_not_mem _ _ hnew, hentries]

/-! ## What was validated -/

theorem validateCompactText_ok {allowPipe : Bool}
    (h : validateCompactText value name maxBytes allowPipe = .ok ()) :
    value ≠ "" ∧ (allowPipe = false → '|' ∉ value.toList) := by
  unfold validateCompactText at h
  split_ifs at h with hempty hlong hunsafe hsecret
  refine ⟨hempty, fun hallow hpipe => hunsafe (.inr (.inr ⟨hpipe, hallow⟩))⟩

theorem safeField_ok {made : String} (h : safeField value name = .ok made) :
    made = value ∧ '|' ∉ value.toList := by
  obtain ⟨u, hvalid, h⟩ := bind_eq_ok.mp h
  cases h
  exact ⟨rfl, (validateCompactText_ok hvalid).2 rfl⟩

theorem validateEvidenceItem_ok {item : String} (h : validateEvidenceItem item = .ok ()) :
    item ≠ "" ∧ '|' ∉ item.toList ∧ ',' ∉ item.toList := by
  obtain ⟨u, hvalid, h⟩ := bind_eq_ok.mp h
  obtain ⟨hempty, hpipe⟩ := validateCompactText_ok hvalid
  refine ⟨hempty, hpipe rfl, fun hcomma => ?_⟩
  rw [if_pos hcomma] at h
  cases h

theorem validateEvidence_ok (h : validateEvidence evidence = .ok ()) :
    ∀ item ∈ evidence, item ≠ "" ∧ '|' ∉ item.toList ∧ ',' ∉ item.toList := by
  rw [validateEvidence] at h
  obtain ⟨-, hitems⟩ := guard_eq_ok.mp h
  replace hitems : evidence.forM validateEvidenceItem = .ok () := hitems
  clear h
  induction evidence with
  | nil => simp
  | cons item evidence ih =>
    have hboth : (validateEvidenceItem item >>= fun _ => evidence.forM validateEvidenceItem) =
        .ok () := hitems
    obtain ⟨u, hitem, hrest⟩ := bind_eq_ok.mp hboth
    exact List.forall_mem_cons.mpr ⟨validateEvidenceItem_ok hitem, ih hrest⟩

/-! ## Evidence -/

/-- What the text of a list of evidence is read as. -/
def readEvidence (evidence : List String) : List String :=
  if evidence = ["-"] then [] else evidence

theorem readEvidence_eq (h : ∀ item ∈ evidence, ',' ∉ item.toList) :
    (if evidenceText evidence = "-" then [] else split ',' (evidenceText evidence)) =
      readEvidence evidence := by
  rw [evidenceText, readEvidence]
  by_cases hnone : evidence = []
  · subst hnone
    decide
  rw [if_neg hnone]
  have hsplit : split ',' (",".intercalate evidence) = evidence := split_intercalate ',' hnone h
  by_cases hdash : evidence = ["-"]
  · subst hdash
    decide
  rw [if_neg hdash, if_neg, hsplit]
  intro htext
  rw [htext] at hsplit
  exact hdash (hsplit.symm.trans (by decide))

theorem validateEvidence_read (h : validateEvidence evidence = .ok ()) :
    validateEvidence (readEvidence evidence) = .ok () := by
  rw [readEvidence]
  split_ifs
  · rfl
  · exact h

theorem notMem_intercalate {c : Char} {separator : String} (hseparator : c ∉ separator.toList)
    {parts : List String} (h : ∀ part ∈ parts, c ∉ part.toList) :
    c ∉ (separator.intercalate parts).toList := by
  induction parts with
  | nil => simp
  | cons part parts ih =>
    rw [List.forall_mem_cons] at h
    cases parts with
    | nil => simpa using h.1
    | cons next parts =>
      rw [String.intercalate_cons_cons, String.toList_append, String.toList_append,
        List.mem_append, List.mem_append, not_or, not_or]
      exact ⟨⟨h.1, hseparator⟩, ih h.2⟩

theorem pipe_notMem_evidenceText (h : ∀ item ∈ evidence, '|' ∉ item.toList) :
    '|' ∉ (evidenceText evidence).toList := by
  rw [evidenceText]
  split_ifs
  · decide
  · exact notMem_intercalate (by decide) h

/-! ## Tickets -/

variable {ticket : SubagentExitTicket} {text : String}

/-- What a compact text was validated for. -/
structure Valid (ticket : SubagentExitTicket) (text : String) : Prop where
  blocker : safeField ticket.blocker "blocker" = .ok ticket.blocker
  cave : safeField ticket.cave "cave" = .ok ticket.cave
  nextAction : safeField ticket.nextAction "next_action" = .ok ticket.nextAction
  evidence : validateEvidence ticket.evidence = .ok ()
  eq : text = "|".intercalate ("X1" :: ticket.fields.map renderField)
  bounded : validateCompactText text "exit ticket" maxExitTicketBytes true = .ok ()

theorem valid_of_compact (h : ticket.compact = .ok text) : Valid ticket text := by
  obtain ⟨blocker, hblocker, h⟩ := bind_eq_ok.mp h
  obtain ⟨cave, hcave, h⟩ := bind_eq_ok.mp h
  obtain ⟨nextAction, hnext, h⟩ := bind_eq_ok.mp h
  obtain ⟨u, hevidence, h⟩ := bind_eq_ok.mp h
  obtain ⟨u', hbounded, h⟩ := bind_eq_ok.mp h
  cases h
  rw [(safeField_ok hblocker).1] at hblocker
  rw [(safeField_ok hcave).1] at hcave
  rw [(safeField_ok hnext).1] at hnext
  exact ⟨hblocker, hcave, hnext, hevidence, rfl, hbounded⟩

/-- No field of a ticket has a pipe in it. -/
theorem Valid.pipe_notMem (h : Valid ticket text) :
    ∀ field ∈ ticket.fields, '|' ∉ field.2.toList := by
  have hitems := validateEvidence_ok h.evidence
  have hevidence := pipe_notMem_evidenceText fun item hitem => (hitems item hitem).2.1
  have hbit : ∀ value, '|' ∉ (bit value).toList := by decide
  have hstatus : '|' ∉ ticket.status.value.toList := by cases ticket.status <;> decide
  have hverification : '|' ∉ ticket.verification.value.toList := by
    cases ticket.verification <;> decide
  simp only [SubagentExitTicket.fields, List.forall_mem_cons]
  exact ⟨hstatus, hbit _, hverification, (safeField_ok h.blocker).2, (safeField_ok h.cave).2,
    hbit _, hevidence, (safeField_ok h.nextAction).2, by simp⟩

theorem keys_fields (ticket : SubagentExitTicket) : ticket.fields.map Prod.fst = required := rfl

theorem Valid.split (h : Valid ticket text) :
    split '|' text = "X1" :: ticket.fields.map renderField := by
  rw [h.eq]
  refine split_intercalate '|' (List.cons_ne_nil _ _) (List.forall_mem_cons.mpr ⟨by decide, ?_⟩)
  intro part hpart
  obtain ⟨field, hfield, rfl⟩ := List.mem_map.mp hpart
  have hkey : field.1 ∈ required := keys_fields ticket ▸ List.mem_map_of_mem hfield
  have hkeys : ∀ key ∈ required, '|' ∉ key.toList := by decide
  have hequals : '|' ∉ "=".toList := by decide
  rw [renderField, String.toList_append, String.toList_append, List.mem_append, List.mem_append,
    not_or, not_or]
  exact ⟨⟨hkeys _ hkey, hequals⟩, h.pipe_notMem field hfield⟩

theorem ofValue_status (status : ExitStatus) : ExitStatus.ofValue status.value = .ok status := by
  cases status <;> decide

theorem ofValue_verification (level : VerificationLevel) :
    VerificationLevel.ofValue level.value = .ok level := by
  cases level <;> decide

/-- The fields of a ticket give the ticket, up to its evidence. -/
theorem Valid.ofFields (h : Valid ticket text) {found : Dict String String}
    (hfound : found.entries = ticket.fields) :
    ofFields found = .ok { ticket with evidence := readEvidence ticket.evidence } := by
  have hkeys : found.keys = required := by rw [Dict.keys, hfound, keys_fields]
  have hevidence := readEvidence_eq fun item hitem =>
    (validateEvidence_ok h.evidence item hitem).2.2
  have hread := validateEvidence_read h.evidence
  have hbits : ∀ value, bit value ∈ ["0", "1"] := by decide
  have hbit : ∀ value, decide (bit value = "1") = value := by decide
  have hget : ∀ key, (found.get? key).getD "" = (ticket.fields.lookup key).getD "" := by
    intro key
    rw [Dict.get?, hfound]
  have hst : (found.get? "st").getD "" = ticket.status.value := hget "st"
  have himpl : (found.get? "impl").getD "" = bit ticket.implemented := hget "impl"
  have hverify : (found.get? "verify").getD "" = ticket.verification.value := hget "verify"
  have hblk : (found.get? "blk").getD "" = ticket.blocker := hget "blk"
  have hcave : (found.get? "cave").getD "" = ticket.cave := hget "cave"
  have hlearn : (found.get? "learn").getD "" = bit ticket.learnCandidate := hget "learn"
  have hev : (found.get? "ev").getD "" = evidenceText ticket.evidence := hget "ev"
  have hnext : (found.get? "next").getD "" = ticket.nextAction := hget "next"
  unfold ExitTickets.ofFields
  simp only [hkeys, hst, himpl, hverify, hblk, hcave, hlearn, hev, hnext, hevidence, hread,
    ofValue_status, ofValue_verification, h.blocker, h.cave, h.nextAction, hbits, hbit]
  rfl

/-- The text of a ticket is read as that ticket, up to its evidence. -/
theorem parse_compact (h : ticket.compact = .ok text) :
    parse text = .ok { ticket with evidence := readEvidence ticket.evidence } := by
  have hvalid := valid_of_compact h
  have hkeys : ∀ field ∈ ticket.fields, field.1 ≠ "" ∧ '=' ∉ field.1.toList := by
    intro field hfield
    have hall : ∀ key ∈ required, key ≠ "" ∧ '=' ∉ key.toList := by decide
    exact hall _ (keys_fields ticket ▸ List.mem_map_of_mem hfield)
  have hnodup : (ticket.fields.map Prod.fst).Nodup := by
    rw [keys_fields]
    decide
  obtain ⟨found, hfound, hentries⟩ := addFields_eq hkeys hnodup
  unfold parse
  simp only [hvalid.bounded, hvalid.split, List.head?_cons, ne_eq, not_true_eq_false, if_false,
    List.tail_cons]
  show ((ticket.fields.map renderField).foldlM addField .empty >>= ofFields) = _
  rw [hfound]
  exact hvalid.ofFields hentries

/-- A ticket is read back exactly if its evidence is not one dash, the text of no evidence. -/
theorem parse_compact_iff (ticket : SubagentExitTicket) (text : String)
    (h : ticket.compact = .ok text) : parse text = .ok ticket ↔ ticket.evidence ≠ ["-"] := by
  rw [parse_compact h]
  constructor
  · intro hsame hdash
    have hevidence := congrArg SubagentExitTicket.evidence (Except.ok.inj hsame)
    rw [readEvidence, if_pos hdash, hdash] at hevidence
    cases hevidence
  · intro hdash
    rw [readEvidence, if_neg hdash]

def reviewedTicket : SubagentExitTicket where
  status := .done
  implemented := true
  verification := .tests
  evidence := ["tests/a.py", "pr=1"]

theorem parse_compact_iff_reviewed :
    ∃ text, reviewedTicket.compact = .ok text ∧ parse text = .ok reviewedTicket := by
  have hcompact : reviewedTicket.compact =
      .ok "X1|st=DONE|impl=1|verify=tests|blk=-|cave=-|learn=0|ev=tests/a.py,pr=1|next=-" := by
    decide +kernel
  exact ⟨_, hcompact, (parse_compact_iff _ _ hcompact).mpr (by decide)⟩

theorem dash_evidence_lost : ¬ ∀ ticket text, SubagentExitTicket.compact ticket = .ok text →
    parse text = .ok ticket := by
  intro hall
  have hcompact : { reviewedTicket with evidence := ["-"] }.compact =
      .ok "X1|st=DONE|impl=1|verify=tests|blk=-|cave=-|learn=0|ev=-|next=-" := by
    decide +kernel
  have hparse := hall _ _ hcompact
  revert hparse
  decide +kernel

end Switchboard.Learning.ExitTickets
