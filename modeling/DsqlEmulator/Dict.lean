import Mathlib.Data.List.Basic
import Mathlib.Data.List.Nodup
import Mathlib.Logic.Function.Basic

/-! Pairs read in order, where a later one for a key replaces an earlier one, and the
dictionaries they make, whose pairs have no order. -/

universe u v

namespace DsqlEmulator

variable {κ : Type u} {β : Type v} [DecidableEq κ] {k : κ} {x : β} {l l' : List (κ × β)}

def lastValue : List (κ × β) → κ → Option β
  | [], _ => none
  | p :: l, k => (lastValue l k).or (if p.1 = k then some p.2 else none)

theorem lastValue_append : lastValue (l ++ l') k = (lastValue l' k).or (lastValue l k) := by
  induction l with
  | nil => simp [lastValue]
  | cons p l ih => rw [List.cons_append, lastValue, ih, lastValue, Option.or_assoc]

theorem lastValue_concat : lastValue (l ++ [(k, x)]) k = some x := by
  simp [lastValue_append, lastValue]

theorem mem_of_lastValue (h : lastValue l k = some x) : (k, x) ∈ l := by
  induction l with
  | nil => cases h
  | cons p l ih =>
    rw [lastValue] at h
    cases hl : lastValue l k with
    | some y => exact List.mem_cons_of_mem p (ih (by rw [hl] at h ⊢; exact h))
    | none =>
      rw [hl, Option.none_or] at h
      split at h
      · next hp => cases h; subst hp; exact List.mem_cons_self
      · cases h

theorem lastValue_eq_none_iff : lastValue l k = none ↔ ∀ p ∈ l, p.1 ≠ k := by
  induction l with
  | nil => simp [lastValue]
  | cons p l ih => simp [lastValue, ih, and_comm]

theorem lastValue_isSome_of_mem (h : (k, x) ∈ l) : (lastValue l k).isSome = true := by
  rw [Option.isSome_iff_ne_none]
  exact fun hn => lastValue_eq_none_iff.1 hn (k, x) h rfl

theorem lastValue_eq_some_iff (h : (l.map Prod.fst).Nodup) : lastValue l k = some x ↔
    (k, x) ∈ l := by
  refine ⟨mem_of_lastValue, fun hmem => ?_⟩
  obtain ⟨y, hy⟩ := Option.isSome_iff_exists.1 (lastValue_isSome_of_mem hmem)
  have heq : ((k, y) : κ × β) = (k, x) := List.inj_on_of_nodup_map h (mem_of_lastValue hy) hmem rfl
  rw [hy, (Prod.mk.inj heq).2]

theorem exists_lastValue_of_map {γ : Type u} [DecidableEq γ] {f : κ → γ} {p : κ → Bool} {c : γ}
    (h : lastValue ((l.filter fun q => p q.1).map fun q => (f q.1, q.2)) c = some x) :
    ∃ k, f k = c ∧ p k = true ∧ lastValue l k = some x := by
  induction l with
  | nil => cases h
  | cons q l ih =>
    have hl (hl : lastValue ((l.filter fun q => p q.1).map fun q => (f q.1, q.2)) c = some x) :
        ∃ k, f k = c ∧ p k = true ∧ lastValue (q :: l) k = some x := by
      obtain ⟨k, hk, hp, hx⟩ := ih hl
      exact ⟨k, hk, hp, by rw [lastValue, hx, Option.some_or]⟩
    by_cases hq : p q.1 = true
    · rw [List.filter_cons, if_pos hq, List.map_cons, lastValue] at h
      cases hlast : lastValue ((l.filter fun q => p q.1).map fun q => (f q.1, q.2)) c with
      | some y => exact hl (by rw [hlast] at h ⊢; exact h)
      | none =>
        rw [hlast, Option.none_or] at h
        have hf : f q.1 = c := by_contra fun hne => by simp [hne] at h
        have hx : some q.2 = some x := by rwa [if_pos hf] at h
        have hnone : lastValue l q.1 = none := lastValue_eq_none_iff.2 fun r hr hk =>
          lastValue_eq_none_iff.1 hlast (f r.1, r.2)
            (List.mem_map_of_mem (List.mem_filter.2 ⟨hr, by rw [hk]; exact hq⟩))
              (by rw [hk]; exact hf)
        exact ⟨q.1, hf, hq, by rw [lastValue, hnone, Option.none_or, if_pos rfl, hx]⟩
    · rw [List.filter_cons, if_neg hq] at h
      exact hl h

structure Dict (κ : Type u) (β : Type v) : Type (max u v) where
  pairs : List (κ × β)
  nodup : (pairs.map Prod.fst).Nodup

namespace Dict

variable {d : Dict κ β}

def empty : Dict κ β := ⟨[], List.nodup_nil⟩

def get (d : Dict κ β) : κ → Option β := lastValue d.pairs

def set (d : Dict κ β) (k : κ) (x : β) : Dict κ β where
  pairs := d.pairs.filter (·.1 ≠ k) ++ [(k, x)]
  nodup := by
    rw [List.map_append, List.nodup_append']
    refine ⟨d.nodup.sublist (List.filter_sublist.map Prod.fst), List.nodup_singleton k, ?_⟩
    intro a ha hk
    obtain ⟨p, hp, rfl⟩ := List.mem_map.1 ha
    exact absurd (List.mem_singleton.1 hk) (of_decide_eq_true (List.mem_filter.1 hp).2)

def ofList (l : List (κ × β)) : Dict κ β := l.foldl (fun d p => d.set p.1 p.2) empty

theorem mem_pairs : (k, x) ∈ d.pairs ↔ d.get k = some x := (lastValue_eq_some_iff d.nodup).symm

theorem get_set {j : κ} : (d.set k x).get j = if j = k then some x else d.get j := by
  refine Option.ext fun y => ?_
  rw [← mem_pairs, set, List.mem_append, List.mem_filter, mem_pairs]
  by_cases hj : j = k
  · simp [hj, eq_comm]
  · simp [hj]

def keys (d : Dict κ β) : List κ := d.pairs.map Prod.fst

def erase (d : Dict κ β) (k : κ) : Dict κ β where
  pairs := d.pairs.filter (·.1 ≠ k)
  nodup := d.nodup.sublist (List.filter_sublist.map Prod.fst)

theorem mem_keys : k ∈ d.keys ↔ (d.get k).isSome = true := by
  rw [keys, List.mem_map, Option.isSome_iff_exists]
  constructor
  · rintro ⟨⟨k, x⟩, hp, rfl⟩
    exact ⟨x, mem_pairs.1 hp⟩
  · rintro ⟨x, hx⟩
    exact ⟨(k, x), mem_pairs.2 hx, rfl⟩

theorem get_erase {j : κ} : (d.erase k).get j = if j = k then none else d.get j := by
  refine Option.ext fun y => ?_
  rw [← mem_pairs, erase, List.mem_filter, mem_pairs]
  by_cases hj : j = k <;> simp [hj]

theorem get_foldl : (l.foldl (fun d p => d.set p.1 p.2) d).get k =
    (lastValue l k).or (d.get k) := by
  induction l generalizing d with
  | nil => rfl
  | cons p l ih =>
    rw [List.foldl_cons, ih, get_set, lastValue, Option.or_assoc]
    by_cases hk : k = p.1
    · simp [hk]
    · simp [hk, Ne.symm hk]

theorem get_ofList : (ofList l).get k = lastValue l k := get_foldl.trans Option.or_none

theorem lastValue_of_perm (h : l.Perm d.pairs) : lastValue l k = d.get k :=
  Option.ext fun y => by
    rw [lastValue_eq_some_iff ((h.map Prod.fst).nodup_iff.2 d.nodup), h.mem_iff, mem_pairs]

theorem exists_perm_concat (h : d.get k = some x) : ∃ l, (l ++ [(k, x)]).Perm d.pairs := by
  obtain ⟨s, t, hst⟩ := List.append_of_mem (mem_pairs.2 h)
  refine ⟨s ++ t, ?_⟩
  rw [hst]
  exact (List.perm_append_singleton (k, x) (s ++ t)).trans List.perm_middle.symm

end Dict

end DsqlEmulator
