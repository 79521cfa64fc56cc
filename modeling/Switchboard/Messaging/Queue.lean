import Mathlib.Data.Finset.Dedup
import Mathlib.Tactic

/-!
# The FIFO queue of one tree

`trees/queue.py` keeps a deque and a set of the ids in it. The fields `index`
and `nodup` say that the two agree and that no id is queued twice.
-/

namespace Switchboard.Messaging

structure MessageNodeQueue where
  deque : List String
  set : Finset String
  index : ∀ id, id ∈ set ↔ id ∈ deque
  nodup : deque.Nodup

namespace MessageNodeQueue

variable (q : MessageNodeQueue)

def empty : MessageNodeQueue := ⟨[], ∅, by simp, List.nodup_nil⟩

@[ext] theorem ext {q r : MessageNodeQueue} (h : q.deque = r.deque) : q = r := by
  have hs : q.set = r.set := by
    ext id
    rw [q.index, r.index, h]
  cases q
  cases r
  cases h
  cases hs
  rfl

/-- Append a unique item and report whether the queue changed. -/
def put (item : String) : Bool × MessageNodeQueue :=
  if h : item ∈ q.set then (false, q)
  else
    (true,
      { deque := q.deque ++ [item]
        set := insert item q.set
        index := by
          intro id
          rw [Finset.mem_insert, List.mem_append, List.mem_singleton, q.index, or_comm]
        nodup := q.nodup.append (List.nodup_singleton item)
          (List.disjoint_singleton.mpr fun hm => h ((q.index item).mpr hm)) })

def pop : Option (String × MessageNodeQueue) :=
  match h : q.deque with
  | [] => none
  | item :: rest =>
    some (item,
      { deque := rest
        set := q.set.erase item
        index := by
          have hnd := q.nodup
          rw [h, List.nodup_cons] at hnd
          intro id
          rw [Finset.mem_erase, q.index, h, List.mem_cons]
          constructor
          · rintro ⟨hne, rfl | hm⟩
            · exact absurd rfl hne
            · exact hm
          · intro hm
            refine ⟨?_, Or.inr hm⟩
            rintro rfl
            exact hnd.1 hm
        nodup := by
          have hnd := q.nodup
          rw [h, List.nodup_cons] at hnd
          exact hnd.2 })

def qsize : ℕ := q.deque.length

def items : List String := q.deque

/-- Drop an item and report whether it was queued. -/
def remove (item : String) : Bool × MessageNodeQueue :=
  if item ∈ q.set then
    (true,
      { deque := q.deque.filter fun x => x ≠ item
        set := q.set.erase item
        index := by
          intro id
          simp [q.index, and_comm]
        nodup := q.nodup.filter _ })
  else (false, q)

def drain : List String × MessageNodeQueue := (q.deque, empty)

@[simp] theorem deque_empty : empty.deque = [] := rfl

theorem put_of_mem {item : String} (h : item ∈ q.deque) : q.put item = (false, q) := by
  rw [put, dif_pos ((q.index item).mpr h)]

theorem put_of_not_mem {item : String} (h : item ∉ q.deque) :
    (q.put item).1 = true ∧ (q.put item).2.deque = q.deque ++ [item] := by
  rw [put, dif_neg fun hs => h ((q.index item).mp hs)]
  exact ⟨rfl, rfl⟩

theorem pop_eq_none : q.pop = none ↔ q.deque = [] := by
  unfold pop
  split
  · next h => simp [h]
  · next h => simp [h]

theorem pop_eq_some {item : String} {r : MessageNodeQueue} :
    q.pop = some (item, r) ↔ q.deque = item :: r.deque := by
  unfold pop
  split
  · next h => simp [h]
  · next x rest h =>
    constructor
    · intro he
      obtain ⟨rfl, hr⟩ := Prod.mk.inj (Option.some.inj he)
      subst hr
      exact h
    · intro hd
      obtain ⟨rfl, hrest⟩ := List.cons.inj (h.symm.trans hd)
      exact congrArg some (Prod.ext rfl (ext hrest))

@[simp] theorem remove_fst (item : String) : (q.remove item).1 = decide (item ∈ q.deque) := by
  unfold remove
  simp only [q.index]
  split_ifs with h <;> simp [h]

@[simp] theorem remove_deque (item : String) :
    (q.remove item).2.deque = q.deque.filter fun x => x ≠ item := by
  unfold remove
  simp only [q.index]
  split_ifs with h
  · rfl
  · refine (List.filter_eq_self.mpr ?_).symm
    rintro x hx
    simp only [ne_eq, decide_eq_true_eq]
    rintro rfl
    exact h hx

end MessageNodeQueue

end Switchboard.Messaging
