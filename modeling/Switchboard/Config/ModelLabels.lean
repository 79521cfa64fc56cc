import Switchboard.Library.Dict

/-!
# Labels of models

`disambiguate_model_labels` of `config/model_labels.py`: a base label that several references share
gets the reference after it. `str.casefold` folds one character after the other, by a table.
-/

namespace Switchboard.Config.ModelLabels

variable (fold : Char → List Char)

def casefold (text : String) : String := String.ofList (text.toList.flatMap fold)

/-- `collisions`: the references with each folded label. -/
def collisions (labels : Dict String String) : Dict String (List String) :=
  labels.entries.foldl (fun found entry =>
    let key := casefold fold entry.2
    found.set key ((found.get? key).getD [] ++ [entry.1])) .empty

/-- A label with its reference. -/
def marked (modelRef label : String) : String := s!"{label} [{modelRef}]"

def disambiguateModelLabels (labels : Dict String String) : Dict String String :=
  labels.entries.foldl (fun resolved entry =>
    if (((collisions fold labels).get? (casefold fold entry.2)).getD []).length ≤ 1 then resolved
    else resolved.set entry.1 (marked entry.1 entry.2)) labels

/-- No two references have the same label, whatever the case. -/
def Distinct (labels : Dict String String) : Prop :=
  ∀ modelRef other label otherLabel, labels.get? modelRef = some label →
    labels.get? other = some otherLabel → modelRef ≠ other →
      casefold fold label ≠ casefold fold otherLabel

/-- Another reference has the same base label, up to case. -/
def Shared (labels : Dict String String) (modelRef label : String) : Prop :=
  ∃ other otherLabel, labels.get? other = some otherLabel ∧ other ≠ modelRef ∧
    casefold fold otherLabel = casefold fold label

/-- What the base labels and the references must be for the labels to differ. -/
structure Unambiguous (labels : Dict String String) : Prop where
  /-- References with the same base label differ in more than case. -/
  refs : ∀ modelRef other label otherLabel, labels.get? modelRef = some label →
    labels.get? other = some otherLabel → modelRef ≠ other →
    casefold fold label = casefold fold otherLabel →
      casefold fold modelRef ≠ casefold fold other
  /-- No base label of one reference alone reads like a shared label with its reference. -/
  alone : ∀ modelRef other label otherLabel, labels.get? modelRef = some label →
    labels.get? other = some otherLabel → Shared fold labels modelRef label →
    ¬ Shared fold labels other otherLabel →
      casefold fold (marked modelRef label) ≠ casefold fold otherLabel
  /-- Different shared labels do not read alike with their references. -/
  marks : ∀ modelRef other label otherLabel, labels.get? modelRef = some label →
    labels.get? other = some otherLabel → Shared fold labels modelRef label →
    Shared fold labels other otherLabel → casefold fold label ≠ casefold fold otherLabel →
      casefold fold (marked modelRef label) ≠ casefold fold (marked other otherLabel)

variable {fold}

/-! ## Folding -/

@[simp] theorem toList_casefold (text : String) :
    (casefold fold text).toList = text.toList.flatMap fold := by
  rw [casefold, String.toList_ofList]

theorem casefold_marked (modelRef label : String) :
    (casefold fold (marked modelRef label)).toList = (casefold fold label).toList ++
      ([' ', '['].flatMap fold ++ ((casefold fold modelRef).toList ++ [']'].flatMap fold)) := by
  have hopen : " [".toList = [' ', '['] := rfl
  have hclose : "]".toList = [']'] := rfl
  simp only [toList_casefold, marked, toString, String.toList_append, hopen, hclose,
    List.flatMap_append, List.append_assoc]

/-- With one base label, the references decide. -/
theorem casefold_marked_inj {modelRef other label otherLabel : String}
    (hlabel : casefold fold label = casefold fold otherLabel) :
    casefold fold (marked modelRef label) = casefold fold (marked other otherLabel) ↔
      casefold fold modelRef = casefold fold other := by
  rw [← String.toList_inj, casefold_marked, casefold_marked, hlabel, List.append_cancel_left_eq,
    List.append_cancel_left_eq, List.append_cancel_right_eq, String.toList_inj]

/-! ## Collisions -/

theorem get?_collisions (labels : Dict String String) (key : String) :
    ((collisions fold labels).get? key).getD [] =
      (labels.entries.filter fun entry => casefold fold entry.2 = key).map Prod.fst := by
  have hlist : ∀ entries : List (String × String),
      ((entries.foldl (fun (found : Dict String (List String)) entry =>
        found.set (casefold fold entry.2)
          ((found.get? (casefold fold entry.2)).getD [] ++ [entry.1])) .empty).get? key).getD [] =
        (entries.filter fun entry => casefold fold entry.2 = key).map Prod.fst := by
    intro entries
    induction entries using List.reverseRecOn with
    | nil => rfl
    | append_singleton entries entry ih =>
      rw [List.foldl_append, List.foldl_cons, List.foldl_nil, Dict.get?_set, List.filter_append,
        List.map_append]
      by_cases hkey : key = casefold fold entry.2
      · subst hkey
        rw [if_pos rfl, Option.getD_some, ih]
        simp
      · rw [if_neg hkey, ih]
        simp [Ne.symm hkey]
  exact hlist labels.entries

/-- A label stands alone exactly if no other reference has it. -/
theorem length_collisions_le {labels : Dict String String} {modelRef label : String}
    (h : labels.get? modelRef = some label) :
    (((collisions fold labels).get? (casefold fold label)).getD []).length ≤ 1 ↔
      ¬ Shared fold labels modelRef label := by
  rw [get?_collisions, List.length_map]
  set found := labels.entries.filter fun entry => casefold fold entry.2 = casefold fold label
    with hfound
  have hmem : ∀ entry, entry ∈ found ↔ labels.get? entry.1 = some entry.2 ∧
      casefold fold entry.2 = casefold fold label := by
    intro entry
    rw [hfound, List.mem_filter, decide_eq_true_eq, Dict.get?_eq_some]
  have hself : (modelRef, label) ∈ found := (hmem _).mpr ⟨h, rfl⟩
  constructor
  · rintro hlength ⟨other, otherLabel, hother, hne, hsame⟩
    have hotherMem : (other, otherLabel) ∈ found := (hmem _).mpr ⟨hother, hsame⟩
    obtain ⟨only, honly⟩ := List.length_eq_one_iff.mp
      (le_antisymm hlength (List.length_pos_of_mem hself))
    rw [honly, List.mem_singleton] at hotherMem hself
    exact hne (congrArg Prod.fst (hotherMem.trans hself.symm))
  · intro halone
    have hall : ∀ entry ∈ found, entry = (modelRef, label) := by
      intro entry hentry
      obtain ⟨hget, hsame⟩ := (hmem entry).mp hentry
      have hfst : entry.1 = modelRef := by
        by_contra hne
        exact halone ⟨entry.1, entry.2, hget, hne, hsame⟩
      rw [hfst, h] at hget
      exact Prod.ext hfst (Option.some.inj hget).symm
    have hnodup : found.Nodup := (List.Nodup.of_map _ labels.nodup).filter _
    rcases hlist : found with _ | ⟨first, _ | ⟨second, rest⟩⟩
    · exact Nat.zero_le 1
    · exact le_rfl
    · rw [hlist] at hnodup hall
      have hsame := (hall first (by simp)).trans (hall second (by simp)).symm
      have hnot := (List.nodup_cons.mp hnodup).1
      exact absurd (by simp [hsame]) hnot

/-! ## The labels that are returned -/

section Write

variable {κ ν : Type*} [DecidableEq κ] {p : κ × ν → Prop} [DecidablePred p] {f : κ × ν → ν}
  {entries : List (κ × ν)} {k : κ}

theorem get?_foldl_set_of_notMem (d : Dict κ ν) (hk : k ∉ entries.map Prod.fst) :
    (entries.foldl (fun d entry => if p entry then d else d.set entry.1 (f entry)) d).get? k =
      d.get? k := by
  induction entries generalizing d with
  | nil => rfl
  | cons entry entries ih =>
    rw [List.map_cons, List.mem_cons, not_or] at hk
    rw [List.foldl_cons, ih _ hk.2]
    split_ifs
    · rfl
    · exact Dict.get?_set_of_ne d _ hk.1

/-- Some entries of a dictionary are written again. -/
theorem get?_foldl_set (hnodup : (entries.map Prod.fst).Nodup) (d : Dict κ ν) {v : ν}
    (hmem : (k, v) ∈ entries) (hd : d.get? k = some v) :
    (entries.foldl (fun d entry => if p entry then d else d.set entry.1 (f entry)) d).get? k =
      some (if p (k, v) then v else f (k, v)) := by
  induction entries generalizing d with
  | nil => cases hmem
  | cons entry entries ih =>
    rw [List.map_cons, List.nodup_cons] at hnodup
    rw [List.foldl_cons]
    rcases List.mem_cons.mp hmem with heq | hmem
    · subst heq
      rw [get?_foldl_set_of_notMem _ hnodup.1]
      split_ifs
      · exact hd
      · exact Dict.get?_set_self d k _
    · refine ih hnodup.2 _ hmem ?_
      have hne : k ≠ entry.1 := fun heq =>
        hnodup.1 (heq ▸ List.mem_map_of_mem (f := Prod.fst) hmem)
      split_ifs
      · exact hd
      · rw [Dict.get?_set_of_ne d _ hne, hd]

end Write

variable {labels : Dict String String} {modelRef label : String}

theorem get?_disambiguate (h : labels.get? modelRef = some label) :
    (disambiguateModelLabels fold labels).get? modelRef =
      some (if (((collisions fold labels).get? (casefold fold label)).getD []).length ≤ 1
        then label else marked modelRef label) :=
  @get?_foldl_set _ _ _ _ _ (fun entry => marked entry.1 entry.2) _ _ labels.nodup labels _
    (Dict.get?_eq_some.mp h) h

/-- A shared label is marked. -/
theorem get?_of_shared (h : labels.get? modelRef = some label)
    (hshared : Shared fold labels modelRef label) :
    (disambiguateModelLabels fold labels).get? modelRef = some (marked modelRef label) := by
  rw [get?_disambiguate h, if_neg fun hle => (length_collisions_le h).mp hle hshared]

/-- Another label is kept. -/
theorem get?_of_alone (h : labels.get? modelRef = some label)
    (halone : ¬ Shared fold labels modelRef label) :
    (disambiguateModelLabels fold labels).get? modelRef = some label := by
  rw [get?_disambiguate h, if_pos ((length_collisions_le h).mpr halone)]

/-- What is returned is returned for a reference that was given. -/
theorem get?_of_disambiguate
    (h : (disambiguateModelLabels fold labels).get? modelRef = some label) :
    ∃ base, labels.get? modelRef = some base := by
  by_contra hnone
  rw [← Dict.mem_keys] at hnone
  rw [disambiguateModelLabels, get?_foldl_set_of_notMem labels hnone] at h
  exact hnone (Dict.mem_keys.mpr ⟨label, h⟩)

/-- The labels differ exactly if the base labels and the references are unambiguous. -/
theorem disambiguate_distinct_iff (fold : Char → List Char) (labels : Dict String String) :
    Distinct fold (disambiguateModelLabels fold labels) ↔ Unambiguous fold labels := by
  constructor
  · intro hdistinct
    refine ⟨fun modelRef other label otherLabel hlabel hother hne hsame hrefs => ?_,
      fun modelRef other label otherLabel hlabel hother hshared halone hsame => ?_,
      fun modelRef other label otherLabel hlabel hother hshared hshared' hne hsame => ?_⟩
    · have hshared : Shared fold labels modelRef label :=
        ⟨other, otherLabel, hother, hne.symm, hsame.symm⟩
      have hshared' : Shared fold labels other otherLabel :=
        ⟨modelRef, label, hlabel, hne, hsame⟩
      exact hdistinct _ _ _ _ (get?_of_shared hlabel hshared) (get?_of_shared hother hshared') hne
        ((casefold_marked_inj hsame).mpr hrefs)
    · have hne : modelRef ≠ other := by
        rintro rfl
        rw [hlabel] at hother
        cases hother
        exact halone hshared
      exact hdistinct _ _ _ _ (get?_of_shared hlabel hshared) (get?_of_alone hother halone) hne
        hsame
    · have hrefs : modelRef ≠ other := by
        rintro rfl
        rw [hlabel] at hother
        cases hother
        exact hne rfl
      exact hdistinct _ _ _ _ (get?_of_shared hlabel hshared) (get?_of_shared hother hshared')
        hrefs hsame
  · rintro ⟨hrefs, halone, hmarks⟩ modelRef other shown otherShown hshown hother hne
    obtain ⟨label, hlabel⟩ := get?_of_disambiguate hshown
    obtain ⟨otherLabel, hotherLabel⟩ := get?_of_disambiguate hother
    by_cases hshared : Shared fold labels modelRef label <;>
      by_cases hshared' : Shared fold labels other otherLabel
    · rw [get?_of_shared hlabel hshared] at hshown
      rw [get?_of_shared hotherLabel hshared'] at hother
      cases hshown
      cases hother
      by_cases hsame : casefold fold label = casefold fold otherLabel
      · rw [Ne, casefold_marked_inj hsame]
        exact hrefs _ _ _ _ hlabel hotherLabel hne hsame
      · exact hmarks _ _ _ _ hlabel hotherLabel hshared hshared' hsame
    · rw [get?_of_shared hlabel hshared] at hshown
      rw [get?_of_alone hotherLabel hshared'] at hother
      cases hshown
      cases hother
      exact halone _ _ _ _ hlabel hotherLabel hshared hshared'
    · rw [get?_of_alone hlabel hshared] at hshown
      rw [get?_of_shared hotherLabel hshared'] at hother
      cases hshown
      cases hother
      exact (halone _ _ _ _ hotherLabel hlabel hshared' hshared).symm
    · rw [get?_of_alone hlabel hshared] at hshown
      rw [get?_of_alone hotherLabel hshared'] at hother
      cases hshown
      cases hother
      exact fun hsame => hshared ⟨other, _, hotherLabel, hne.symm, hsame.symm⟩

/-- A base label that reads like a marked one. -/
def lookalikeLabels : Dict String String :=
  .ofList [("gw/one", "Chat"), ("gw/two", "Chat"), ("gw/three", "Chat [gw/one]")]

theorem lookalike_labels_collide :
    ¬ ∀ labels, Distinct (fun c => [c.toLower])
      (disambiguateModelLabels (fun c => [c.toLower]) labels) := by
  intro hall
  have hshown : (disambiguateModelLabels (fun c => [c.toLower]) lookalikeLabels).get? "gw/one" =
      some "Chat [gw/one]" := by decide +kernel
  have hother : (disambiguateModelLabels (fun c => [c.toLower]) lookalikeLabels).get?
      "gw/three" = some "Chat [gw/one]" := by decide +kernel
  exact hall lookalikeLabels _ _ _ _ hshown hother (by decide) rfl

end Switchboard.Config.ModelLabels
