import Mathlib.Data.List.Infix
import MarkupTemplate.LruMap

/-!
# Laws of maps with the least recently used entry last

What looking up and putting in make of the entries of a map.  Only the key that is put in gets
another item; any other key keeps its own, or is given up.  A map holds the keys that were put in
most recently, as many as its capacity allows, and in this order.
-/

namespace MarkupTemplate

/-! ## Lists without repetitions -/

section WithoutRepetitions

variable {Item Key : Type}

theorem eraseDupsBy_filter {same : Item → Item → Bool} {keeps : Item → Bool}
    (respects : ∀ earlier later, same later earlier = true → keeps later = keeps earlier)
    (items : List Item) :
    (items.filter keeps).eraseDupsBy same = (items.eraseDupsBy same).filter keeps := by
  cases items with
  | nil => rfl
  | cons first rest =>
      have onward := eraseDupsBy_filter respects
        (rest.filter fun later => decide (same later first = false))
      rw [List.eraseDupsBy_cons, List.filter_cons, List.filter_cons]
      split
      · rw [List.eraseDupsBy_cons, ← onward, List.filter_comm]
      · rename_i dropped
        rw [← onward, List.filter_filter]
        congr 1
        refine List.filter_congr fun later _ => ?_
        cases kept : keeps later with
        | false => rfl
        | true =>
            have apart : same later first = false := by
              by_contra related
              rw [Bool.not_eq_false] at related
              exact dropped ((respects _ _ related).symm.trans kept)
            simp [apart]
termination_by items.length
decreasing_by exact Nat.lt_succ_of_le (List.length_filter_le _ _)

theorem nodup_eraseDups [DecidableEq Item] (items : List Item) : items.eraseDups.Nodup := by
  cases items with
  | nil => exact List.nodup_nil
  | cons first rest =>
      rw [List.eraseDups_cons, List.nodup_cons, List.mem_eraseDups]
      exact ⟨by simp, nodup_eraseDups (rest.filter fun later => !later == first)⟩
termination_by items.length
decreasing_by exact Nat.lt_succ_of_le (List.length_filter_le _ _)

theorem filter_eraseDups [DecidableEq Item] (keeps : Item → Bool) (items : List Item) :
    items.eraseDups.filter keeps = (items.filter keeps).eraseDups :=
  (eraseDupsBy_filter (fun _ _ same => congrArg keeps (eq_of_beq same)) items).symm

theorem map_eraseDupsBy [DecidableEq Key] (key : Item → Key) (items : List Item) :
    (items.eraseDupsBy fun later earlier => key later == key earlier).map key =
      (items.map key).eraseDups := by
  cases items with
  | nil => rfl
  | cons first rest =>
      have onward := map_eraseDupsBy key
        (rest.filter fun later => decide ((key later == key first) = false))
      rw [List.eraseDupsBy_cons, List.map_cons, onward, List.map_cons, List.eraseDups_cons,
        List.filter_map]
      congr 3
      refine List.filter_congr fun later _ => ?_
      cases same : key later == key first <;> simp [same]
termination_by items.length
decreasing_by exact Nat.lt_succ_of_le (List.length_filter_le _ _)

/-- Leaving one item out leaves enough of the first ones. -/
theorem take_filter_take [DecidableEq Item] {items : List Item} (distinct : items.Nodup)
    (left : Item) (limit : Nat) :
    ((items.take (limit + 1)).filter (· ≠ left)).take limit =
      (items.filter (· ≠ left)).take limit := by
  induction items generalizing limit with
  | nil => rfl
  | cons first rest inductionHypothesis =>
      rw [List.nodup_cons] at distinct
      rw [List.take_succ_cons]
      by_cases same : first = left
      · subst same
        have absent : rest.filter (· ≠ first) = rest :=
          List.filter_eq_self.2 fun later member =>
            decide_eq_true fun same : later = first => distinct.1 (same ▸ member)
        have absentToo : (rest.take limit).filter (· ≠ first) = rest.take limit :=
          List.filter_eq_self.2 fun later member =>
            decide_eq_true fun same : later = first =>
              distinct.1 (same ▸ List.mem_of_mem_take member)
        rw [List.filter_cons_of_neg (by simp), List.filter_cons_of_neg (by simp), absent,
          absentToo, List.take_take, Nat.min_self]
      · rw [List.filter_cons_of_pos (by simpa), List.filter_cons_of_pos (by simpa)]
        cases limit with
        | zero => rfl
        | succ limit =>
            rw [List.take_succ_cons, List.take_succ_cons, inductionHypothesis distinct.2]

end WithoutRepetitions

namespace LruMap

variable {Key Item : Type} {map : LruMap Key Item} {key other : Key} {item found : Item}

theorem length_keys (map : LruMap Key Item) : map.keys.length = map.size :=
  List.length_map _

/-- What is kept comes first. -/
theorem keep_begins (map : LruMap Key Item) (entries : List (Key × Item)) :
    map.keep entries <+: entries := by
  unfold keep
  split
  · exact List.take_prefix _ _
  · exact List.prefix_refl _

variable [DecidableEq Key]

/-! ## Looking up -/

theorem mem_entries_of_find? (present : map.find? key = some item) : (key, item) ∈ map.entries := by
  obtain ⟨entry, search, rfl⟩ := Option.map_eq_some_iff.1 present
  have same : entry.1 = key := by simpa using List.find?_some search
  exact same ▸ List.mem_of_find?_eq_some search

theorem find?_eq_none_iff : map.find? key = none ↔ key ∉ map.keys := by
  rw [find?, Option.map_eq_none_iff, List.find?_eq_none, keys, List.mem_map, not_exists]
  refine forall_congr' fun entry => ?_
  rw [not_and, decide_eq_true_eq]

theorem mem_keys_of_find? (present : map.find? key = some item) : key ∈ map.keys :=
  List.mem_map_of_mem (mem_entries_of_find? present)

/-! ## Putting in -/

theorem mem_entries_put {entry : Key × Item} (member : entry ∈ (map.put key item).entries) :
    entry = (key, item) ∨ entry ∈ map.entries ∧ entry.1 ≠ key := by
  have among := (keep_begins map _).subset member
  rw [List.mem_cons, others, List.mem_filter] at among
  exact among.imp_right fun ⟨old, different⟩ => ⟨old, by simpa using different⟩

theorem find?_put_self (present : (map.put key item).find? key = some found) : found = item := by
  rcases mem_entries_put (mem_entries_of_find? present) with same | ⟨_, different⟩
  · exact (Prod.mk.inj same).2
  · exact absurd rfl different

theorem find?_others (different : other ≠ key) :
    ((map.others key).find? fun entry => entry.1 = other).map Prod.snd = map.find? other := by
  rw [others, List.find?_filter, find?]
  congr 2
  funext entry
  by_cases same : entry.1 = other
  · simp [same, different]
  · simp [same]

/-- Another key that is still there has the item that it had. -/
theorem find?_put_of_ne (different : other ≠ key)
    (present : (map.put key item).find? other = some found) : map.find? other = some found := by
  obtain ⟨entry, search, rfl⟩ := Option.map_eq_some_iff.1 present
  have whole := (keep_begins map _).find?_eq_some search
  rw [List.find?_cons_of_neg (by simpa using Ne.symm different)] at whole
  rw [← find?_others different, whole]
  rfl

/-- Without a capacity no key is given up. -/
theorem find?_put (unbounded : map.capacity = none) (other : Key) :
    (map.put key item).find? other = if other = key then some item else map.find? other := by
  simp only [put, keep, unbounded, find?]
  by_cases same : other = key
  · rw [List.find?_cons_of_pos (by simp [same]), if_pos same]
    rfl
  · rw [List.find?_cons_of_neg (by simpa using Ne.symm same), if_neg same]
    exact find?_others same

theorem keys_put_eq (map : LruMap Key Item) (key : Key) (item : Item) :
    (map.put key item).keys =
      match map.capacity with
      | some limit => (key :: map.keys.filter (· ≠ key)).take limit
      | none => key :: map.keys.filter (· ≠ key) := by
  have others : (map.others key).map Prod.fst = map.keys.filter (· ≠ key) := by
    rw [keys, List.filter_map]
    rfl
  unfold keys at others ⊢
  cases limited : map.capacity with
  | none => simp only [put, keep, limited, List.map_cons, others]
  | some limit => simp only [put, keep, limited, List.map_take, List.map_cons, others]

theorem mem_keys_put (unbounded : map.capacity = none) (other : Key) :
    other ∈ (map.put key item).keys ↔ other = key ∨ other ∈ map.keys := by
  rw [keys_put_eq, unbounded, List.mem_cons, List.mem_filter, decide_eq_true_eq]
  by_cases same : other = key <;> simp [same]

/-- In a full map the key at the end makes room for a new one. -/
theorem keys_put_of_full {limit : Nat} (limited : map.capacity = some (limit + 1))
    (full : map.size = limit + 1) (missing : key ∉ map.keys) :
    (map.put key item).keys = key :: map.keys.dropLast := by
  have absent : map.keys.filter (· ≠ key) = map.keys :=
    List.filter_eq_self.2 fun other member =>
      decide_eq_true fun same : other = key => missing (same ▸ member)
  rw [keys_put_eq, limited, absent, List.dropLast_eq_take, length_keys, full]
  rfl

/-! ## The most recent keys -/

/-- The distinct keys among those that were put in, up to the capacity, the most recent first. -/
def mostRecent (capacity : Option Nat) (touches : List Key) : List Key :=
  match capacity with
  | some limit => touches.eraseDups.take limit
  | none => touches.eraseDups

theorem nodup_mostRecent (capacity : Option Nat) (touches : List Key) :
    (mostRecent capacity touches).Nodup := by
  cases capacity with
  | none => exact nodup_eraseDups touches
  | some limit => exact (nodup_eraseDups touches).sublist (List.take_sublist _ _)

theorem mostRecent_nil (capacity : Option Nat) : mostRecent capacity ([] : List Key) = [] := by
  cases capacity with
  | none => rfl
  | some limit => exact List.take_nil

/-- What is put in is the most recent key. -/
theorem keys_put {touches : List Key} (recent : map.keys = mostRecent map.capacity touches) :
    (map.put key item).keys = mostRecent map.capacity (key :: touches) := by
  have step : (key :: touches).eraseDups = key :: touches.eraseDups.filter (· ≠ key) := by
    rw [List.eraseDups_cons, filter_eraseDups]
    congr 2
    refine List.filter_congr fun other _ => ?_
    cases same : other == key <;> simp_all
  rw [keys_put_eq]
  cases limited : map.capacity with
  | none =>
      rw [limited] at recent
      exact recent ▸ step.symm
  | some limit =>
      rw [limited] at recent
      simp only [mostRecent] at recent ⊢
      rw [step, recent]
      cases limit with
      | zero => rfl
      | succ limit =>
          rw [List.take_succ_cons, List.take_succ_cons,
            take_filter_take (nodup_eraseDups touches)]

end LruMap

end MarkupTemplate
