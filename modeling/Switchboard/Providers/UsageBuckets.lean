import Mathlib.Tactic
import Switchboard.Library.Dict

/-!
# The buckets of a usage report

The input tokens of an answer are told as uncached input, cache reads and cache creation. The chat
path is `providers/openai_chat/usage.py` with `_client_usage`, the Responses path is in
`core/openai_responses/provider_stream.py`, and `core/anthropic/usage.py` fits both to the
estimate of a request.
-/

namespace Switchboard.Providers.Usage

/-- A value in a usage report: a mapping, an object of an SDK with its attributes and what its
`model_extra` holds, or a value that is neither an integer nor has fields. -/
inductive UsageInfo where
  | none
  | int (n : ℤ)
  | other
  | mapping (entries : List (String × UsageInfo))
  | object (attributes modelExtra : List (String × UsageInfo))

namespace UsageInfo

/-- `_usage_value` -/
def value : UsageInfo → String → UsageInfo
  | .mapping entries, key => (entries.lookup key).getD .none
  | .object attributes modelExtra, key =>
    match (attributes.lookup key).getD .none with
    | .none => (modelExtra.lookup key).getD .none
    | direct => direct
  | _, _ => .none

/-- The value, if it is an integer and no boolean. -/
def int? : UsageInfo → Option ℤ
  | .int n => some n
  | _ => Option.none

/-- `_non_negative_integer` -/
def nonNegative? (value : UsageInfo) : Option ℤ := value.int?.filter (0 ≤ ·)

end UsageInfo

def usageInt (usage : UsageInfo) (key : String) : Option ℤ := (usage.value key).int?

/-- `usage_nested_int`; what is `None` has no fields. -/
def usageNestedInt (usage : UsageInfo) (parent key : String) : Option ℤ :=
  usageInt (usage.value parent) key

def firstUsageInt (usage : UsageInfo) (keys : List String) : Option ℤ :=
  keys.findSome? fun key => (usageInt usage key).filter (0 ≤ ·)

def firstNestedUsageInt (usage : UsageInfo) (parent : String) (keys : List String) : Option ℤ :=
  keys.findSome? fun key => (usageNestedInt usage parent key).filter (0 ≤ ·)

/-- A field that is written if there is a value for it. -/
def setSome (fields : Dict String ℤ) (key : String) : Option ℤ → Dict String ℤ
  | some n => fields.set key n
  | none => fields

/-! ## The chat path -/

/-- The counter of cached tokens that a report has. -/
def reportedCacheRead (usage : UsageInfo) : Option ℤ :=
  (firstUsageInt usage ["prompt_cache_hit_tokens", "cache_read_input_tokens"]).or
    (firstNestedUsageInt usage "prompt_tokens_details" ["cached_tokens"])

def reportedCacheMiss (usage : UsageInfo) : Option ℤ :=
  firstUsageInt usage ["prompt_cache_miss_tokens"]

def reportedCacheWrite (usage : UsageInfo) : Option ℤ :=
  (firstUsageInt usage ["prompt_cache_write_tokens", "prompt_cache_creation_tokens",
    "cache_write_tokens", "cache_creation_input_tokens"]).or
    (firstNestedUsageInt usage "prompt_tokens_details"
      ["cache_write_tokens", "cache_creation_tokens", "cache_creation_input_tokens"])

def cacheUsageFields (usage : UsageInfo) : Dict String ℤ :=
  let promptTotal := usageInt usage "prompt_tokens"
  let uncached := (reportedCacheMiss usage).filter fun miss =>
    promptTotal.all fun total => !(total < 0 || miss > total)
  let cacheRead := (reportedCacheRead usage).filter fun read =>
    promptTotal.elim uncached.isSome fun total => !(total < 0 || read > total)
  let uncached := uncached.or <| cacheRead.bind fun read => promptTotal.bind fun total =>
    if total ≥ read then some (total - read) else none
  setSome (setSome (setSome .empty "cache_read_input_tokens" cacheRead) "input_tokens" uncached)
    "cache_creation_input_tokens" (reportedCacheWrite usage)

/-- The fields that are integers. -/
def integerFields (usageFields : Dict String UsageInfo) : Dict String ℤ where
  entries := usageFields.entries.filterMap fun entry => entry.2.int?.map fun n => (entry.1, n)
  nodup := by
    refine usageFields.nodup.sublist ?_
    induction usageFields.entries with
    | nil => exact List.Sublist.slnil
    | cons entry entries ih =>
      rw [List.filterMap_cons]
      cases entry.2.int? with
      | none => exact ih.cons _
      | some n => exact ih.cons_cons _

/-- Fields as a mapping of any values. -/
def fieldValues (fields : Dict String ℤ) : Dict String UsageInfo where
  entries := fields.entries.map fun entry => (entry.1, .int entry.2)
  nodup := by
    rw [List.map_map]
    exact fields.nodup

/-- One round of the loop of `reconcile_input_usage`: what is left, and the fields. -/
def fitBucket (made : ℤ × Dict String ℤ) (fieldName : String) : ℤ × Dict String ℤ :=
  match made.2.get? fieldName with
  | none => made
  | some cacheTokens =>
    if 0 ≤ cacheTokens ∧ cacheTokens ≤ made.1 then (made.1 - cacheTokens, made.2)
    else (made.1, made.2.erase fieldName)

def reconcileInputUsage (estimatedInputTokens : ℤ) (usageFields : Dict String UsageInfo)
    (fallbackInputTokens : Option ℤ) : ℤ × Dict String ℤ :=
  let fields := integerFields usageFields
  if estimatedInputTokens ≤ 0 then
    let inputTokens := ((fields.get? "input_tokens").filter (0 ≤ ·)).or fallbackInputTokens
    (max 0 (inputTokens.getD 0), fields)
  else
    ["cache_read_input_tokens", "cache_creation_input_tokens"].foldl fitBucket
      (max 0 estimatedInputTokens, fields.erase "input_tokens")

/-- `_client_usage`, for a provider with `cache_usage_fields`. -/
def clientUsage (usage : UsageInfo) (estimatedInputTokens : ℤ) : ℤ × Dict String ℤ :=
  let usageFields := cacheUsageFields usage
  if estimatedInputTokens ≤ 0 then
    let fallback := ((usageFields.get? "input_tokens").filter (0 ≤ ·)).or
      (usageInt usage "prompt_tokens")
    (max 0 (fallback.getD 0), usageFields)
  else reconcileInputUsage estimatedInputTokens (fieldValues usageFields)
    (usageInt usage "prompt_tokens")

/-! ## The Responses path -/

def firstNonNegativeInteger (values : List UsageInfo) : Option ℤ :=
  values.findSome? UsageInfo.nonNegative?

/-- `_usage_detail_mappings` -/
def usageDetailMappings (usage : UsageInfo) : List UsageInfo :=
  ["input_tokens_details", "prompt_tokens_details"].filterMap fun fieldName =>
    match usage.value fieldName with
    | .mapping entries => some (.mapping entries)
    | _ => none

def firstUsageCounter (usage : UsageInfo) (fieldNames : List String) : Option ℤ :=
  ((usageDetailMappings usage).findSome? fun details =>
    fieldNames.findSome? fun fieldName => (details.value fieldName).nonNegative?).or
    (firstNonNegativeInteger (fieldNames.map usage.value))

def partitionReportedInputTokens (totalInputTokens : ℤ) (cachedTokens cacheWriteTokens : Option ℤ) :
    ℤ × Option ℤ × Option ℤ :=
  let cacheRead := cachedTokens.filter (· ≤ totalInputTokens)
  let ordinary := totalInputTokens - cacheRead.getD 0
  let cacheWrite := cacheWriteTokens.filter (· ≤ ordinary)
  (ordinary - cacheWrite.getD 0, cacheRead, cacheWrite)

def reportedInputTokens (usage : UsageInfo) : Option ℤ :=
  firstNonNegativeInteger [usage.value "input_tokens", usage.value "prompt_tokens"]

/-- The buckets of a completed response, if it has a total. -/
def responseUsage (usage : UsageInfo) : Option (ℤ × Option ℤ × Option ℤ) :=
  (reportedInputTokens usage).map fun total =>
    partitionReportedInputTokens total
      (firstUsageCounter usage
        ["cached_tokens", "cache_read_input_tokens", "prompt_cache_hit_tokens"])
      (firstUsageCounter usage
        ["cache_write_tokens", "cache_creation_input_tokens", "prompt_cache_write_tokens",
          "prompt_cache_creation_tokens", "cache_creation_tokens"])

/-! ## Counters are not negative -/

theorem nonneg_of_filter {n m : Option ℤ} (h : n = m.filter (0 ≤ ·)) : ∀ k ∈ n, 0 ≤ k := by
  intro k hk
  rw [h, Option.mem_def, Option.filter_eq_some_iff] at hk
  simpa using hk.2

theorem nonneg_of_findSome {α : Type*} {f : α → Option ℤ} (hf : ∀ a, ∀ k ∈ f a, 0 ≤ k)
    {l : List α} : ∀ k ∈ l.findSome? f, 0 ≤ k := by
  intro k hk
  obtain ⟨a, -, ha⟩ := List.exists_of_findSome?_eq_some hk
  exact hf a k ha

theorem nonneg_of_or {n m : Option ℤ} (hn : ∀ k ∈ n, 0 ≤ k) (hm : ∀ k ∈ m, 0 ≤ k) :
    ∀ k ∈ n.or m, 0 ≤ k := by
  intro k hk
  rcases Option.or_eq_some_iff.mp hk with hk | ⟨-, hk⟩
  · exact hn k hk
  · exact hm k hk

theorem nonneg_reportedCacheRead (usage : UsageInfo) : ∀ k ∈ reportedCacheRead usage, 0 ≤ k :=
  nonneg_of_or (nonneg_of_findSome fun _ => nonneg_of_filter rfl)
    (nonneg_of_findSome fun _ => nonneg_of_filter rfl)

theorem nonneg_reportedCacheMiss (usage : UsageInfo) : ∀ k ∈ reportedCacheMiss usage, 0 ≤ k :=
  nonneg_of_findSome fun _ => nonneg_of_filter rfl

theorem nonneg_reportedCacheWrite (usage : UsageInfo) : ∀ k ∈ reportedCacheWrite usage, 0 ≤ k :=
  nonneg_of_or (nonneg_of_findSome fun _ => nonneg_of_filter rfl)
    (nonneg_of_findSome fun _ => nonneg_of_filter rfl)

theorem nonneg_firstUsageCounter (usage : UsageInfo) (fieldNames : List String) :
    ∀ k ∈ firstUsageCounter usage fieldNames, 0 ≤ k :=
  nonneg_of_or
    (nonneg_of_findSome fun _ => nonneg_of_findSome fun _ => nonneg_of_filter rfl)
    (nonneg_of_findSome fun _ => nonneg_of_filter rfl)

/-! ## Buckets -/

theorem get?_setSome (fields : Dict String ℤ) (key other : String) (value : Option ℤ) :
    (setSome fields key value).get? other =
      if other = key then value.or (fields.get? other) else fields.get? other := by
  cases value with
  | none => simp [setSome]
  | some n =>
    rw [setSome, Dict.get?_set]
    simp

/-- The fields of a report with a total. -/
theorem get?_cacheUsageFields {usage : UsageInfo} {total : ℤ}
    (htotal : usageInt usage "prompt_tokens" = some total) (hnonneg : 0 ≤ total) :
    (cacheUsageFields usage).get? "cache_read_input_tokens" =
        (reportedCacheRead usage).filter (· ≤ total) ∧
      (cacheUsageFields usage).get? "input_tokens" =
        ((reportedCacheMiss usage).filter (· ≤ total)).or
          (((reportedCacheRead usage).filter (· ≤ total)).map (total - ·)) ∧
      (cacheUsageFields usage).get? "cache_creation_input_tokens" = reportedCacheWrite usage := by
  have hfits : ∀ n : ℤ, (!(decide (total < 0) || decide (n > total))) = decide (n ≤ total) := by
    intro n
    grind
  have hrest : ∀ read : Option ℤ, (read.filter (· ≤ total)).bind (fun n =>
      if total ≥ n then some (total - n) else none) =
        (read.filter (· ≤ total)).map (total - ·) := by
    intro read
    cases hread : read.filter (· ≤ total) with
    | none => rfl
    | some n =>
      have hle := (Option.filter_eq_some_iff.mp hread).2
      simp only [decide_eq_true_eq] at hle
      rw [Option.bind_some, if_pos hle, Option.map_some]
  unfold cacheUsageFields
  simp only [htotal, Option.all_some, Option.elim_some, hfits, Option.bind_some, hrest,
    get?_setSome]
  simp

/-- The input tokens of the chat path, over the reported total. -/
theorem clientUsage_input {usage : UsageInfo} {total estimated : ℤ}
    (htotal : usageInt usage "prompt_tokens" = some total) (hnonneg : 0 ≤ total)
    (hestimated : estimated ≤ 0) :
    (clientUsage usage estimated).1 = ((reportedCacheMiss usage).filter (· ≤ total)).getD
      (total - ((reportedCacheRead usage).filter (· ≤ total)).getD 0) := by
  obtain ⟨-, hinput, -⟩ := get?_cacheUsageFields htotal hnonneg
  rw [clientUsage, if_pos hestimated, hinput, htotal]
  cases hmiss : (reportedCacheMiss usage).filter (· ≤ total) with
  | some miss =>
    have hreported := (Option.filter_eq_some_iff.mp hmiss).1
    have hpos := nonneg_reportedCacheMiss usage miss hreported
    simp [Option.filter, hpos]
  | none =>
    cases hread : (reportedCacheRead usage).filter (· ≤ total) with
    | none => simp [hnonneg]
    | some read =>
      have hle := (Option.filter_eq_some_iff.mp hread).2
      simp only [decide_eq_true_eq] at hle
      have hpos : 0 ≤ total - read := by omega
      simp [Option.filter, hle]

/-- The cached tokens that the chat path tells. -/
theorem clientUsage_fields (usage : UsageInfo) {estimated : ℤ} (hestimated : estimated ≤ 0) :
    (clientUsage usage estimated).2 = cacheUsageFields usage := by
  rw [clientUsage, if_pos hestimated]

/-- The bucket of some counter. -/
def bucket (fields : Dict String ℤ) (fieldName : String) : ℤ := (fields.get? fieldName).getD 0

theorem getD_nonneg {n : Option ℤ} (h : ∀ k ∈ n, 0 ≤ k) : 0 ≤ n.getD 0 := by
  cases n with
  | none => exact le_rfl
  | some k => exact h k rfl

theorem filter_nonneg {n : Option ℤ} (h : ∀ k ∈ n, 0 ≤ k) (p : ℤ → Bool) :
    ∀ k ∈ n.filter p, 0 ≤ k := fun k hk => h k (Option.filter_eq_some_iff.mp hk).1

theorem filter_le {n : Option ℤ} {bound : ℤ} (hbound : 0 ≤ bound) :
    (n.filter (· ≤ bound)).getD 0 ≤ bound := by
  cases hn : n.filter (· ≤ bound) with
  | none => exact hbound
  | some k => simpa using (Option.filter_eq_some_iff.mp hn).2

/-- Each counter is taken from what is left. -/
theorem partition_sums {total : ℤ} {cached write : Option ℤ} (htotal : 0 ≤ total)
    (hcached : ∀ k ∈ cached, 0 ≤ k) (hwrite : ∀ k ∈ write, 0 ≤ k) :
    let made := partitionReportedInputTokens total cached write
    0 ≤ made.1 ∧ 0 ≤ made.2.1.getD 0 ∧ 0 ≤ made.2.2.getD 0 ∧
      made.1 + made.2.1.getD 0 + made.2.2.getD 0 = total := by
  have hread : (cached.filter (· ≤ total)).getD 0 ≤ total := filter_le htotal
  have hleft : (write.filter (· ≤ total - (cached.filter (· ≤ total)).getD 0)).getD 0 ≤
      total - (cached.filter (· ≤ total)).getD 0 := filter_le (by omega)
  have hreadPos := getD_nonneg (filter_nonneg hcached (· ≤ total))
  have hwritePos := getD_nonneg
    (filter_nonneg hwrite (· ≤ total - (cached.filter (· ≤ total)).getD 0))
  dsimp only [partitionReportedInputTokens]
  refine ⟨?_, hreadPos, hwritePos, ?_⟩ <;> omega

/-- A bucket that fits is kept, and another one dropped. -/
theorem fitBucket_sums {made : ℤ × Dict String ℤ} (hmade : 0 ≤ made.1) (fieldName : String) :
    0 ≤ (fitBucket made fieldName).1 ∧ 0 ≤ bucket (fitBucket made fieldName).2 fieldName ∧
      (fitBucket made fieldName).1 + bucket (fitBucket made fieldName).2 fieldName = made.1 ∧
      ∀ other, other ≠ fieldName →
        bucket (fitBucket made fieldName).2 other = bucket made.2 other := by
  unfold fitBucket
  cases hget : made.2.get? fieldName with
  | none =>
    have hnone : bucket made.2 fieldName = 0 := by rw [bucket, hget, Option.getD_none]
    exact ⟨hmade, hnone.ge, by rw [hnone, add_zero], fun _ _ => rfl⟩
  | some cacheTokens =>
    have hsome : bucket made.2 fieldName = cacheTokens := by rw [bucket, hget, Option.getD_some]
    dsimp only
    split_ifs with hfits
    · refine ⟨by omega, ?_, ?_, fun _ _ => rfl⟩
      · show 0 ≤ bucket made.2 fieldName
        omega
      · show made.1 - cacheTokens + bucket made.2 fieldName = made.1
        omega
    · have hgone : bucket (made.2.erase fieldName) fieldName = 0 := by
        rw [bucket, Dict.get?_erase_self, Option.getD_none]
      refine ⟨hmade, hgone.ge, by rw [hgone, add_zero], fun other hother => ?_⟩
      rw [bucket, Dict.get?_erase_of_ne _ hother, bucket]

theorem reconcile_sums {estimate : ℤ} (hestimate : 0 < estimate)
    (usageFields : Dict String UsageInfo) (fallback : Option ℤ) :
    let made := reconcileInputUsage estimate usageFields fallback
    0 ≤ made.1 ∧ 0 ≤ bucket made.2 "cache_read_input_tokens" ∧
      0 ≤ bucket made.2 "cache_creation_input_tokens" ∧
      made.1 + bucket made.2 "cache_read_input_tokens" +
        bucket made.2 "cache_creation_input_tokens" = estimate := by
  rw [reconcileInputUsage, if_neg (by omega)]
  simp only [List.foldl_cons, List.foldl_nil]
  set start : ℤ × Dict String ℤ :=
    (max 0 estimate, (integerFields usageFields).erase "input_tokens") with hstart
  have hleft : start.1 = estimate := by
    rw [hstart]
    dsimp only
    omega
  obtain ⟨hread, hreadBucket, hreadSum, -⟩ :=
    @fitBucket_sums start (by omega) "cache_read_input_tokens"
  set next := fitBucket start "cache_read_input_tokens"
  obtain ⟨hwrite, hwriteBucket, hwriteSum, hother⟩ :=
    @fitBucket_sums next hread "cache_creation_input_tokens"
  have hkept := hother "cache_read_input_tokens" (by decide)
  refine ⟨hwrite, by omega, hwriteBucket, by omega⟩

/-! ## Reports -/

theorem reportedInputTokens_nonneg {usage : UsageInfo} {total : ℤ}
    (h : reportedInputTokens usage = some total) : 0 ≤ total :=
  nonneg_of_findSome (fun _ => nonneg_of_filter rfl) total h

/-- A report whose cache write is told beside the total. -/
def cacheWriteReport : UsageInfo :=
  .mapping [("prompt_tokens", .int 40), ("prompt_cache_hit_tokens", .int 31),
    ("prompt_cache_miss_tokens", .int 9), ("prompt_cache_write_tokens", .int 3)]

end Switchboard.Providers.Usage
