import Mathlib.Tactic.Basic
import Mathlib.Data.List.Nodup
import Mathlib.Data.List.Induction

/-!
# Maps with a capacity

`BoundedMap κ ν cap` is a map with at most `cap` entries, kept in order of arrival. An insert of a
present key replaces its value; an insert of a new key is refused once the map is full, and a
refused insert changes nothing. This is how a BPF hash map answers an update without flags.

After any sequence of inserts whose refusals are ignored, the keys are the first `cap` distinct keys
of the sequence (`keys_insertAll`).
-/

namespace CiliumMini

/-- A map of at most `cap` entries with distinct keys. -/
structure BoundedMap (κ ν : Type) (cap : ℕ) where
  entries : List (κ × ν)
  nodup : (entries.map Prod.fst).Nodup
  length_le : entries.length ≤ cap

namespace BoundedMap

variable {κ ν : Type} {cap : ℕ}

/-- The map without entries. -/
def empty : BoundedMap κ ν cap := ⟨[], List.nodup_nil, Nat.zero_le _⟩

/-- The keys, in order of arrival. -/
def keys (m : BoundedMap κ ν cap) : List κ := m.entries.map Prod.fst

@[simp] theorem keys_empty : (empty : BoundedMap κ ν cap).keys = [] := rfl

theorem length_keys (m : BoundedMap κ ν cap) : m.keys.length = m.entries.length :=
  List.length_map _

variable [DecidableEq κ]

/-- The value stored under `k`. -/
def lookup (m : BoundedMap κ ν cap) (k : κ) : Option ν :=
  (m.entries.find? fun e => e.1 = k).map Prod.snd

/-- The entries with the value under `k` replaced. -/
def replaced (l : List (κ × ν)) (k : κ) (v : ν) : List (κ × ν) :=
  l.map fun e => if e.1 = k then (k, v) else e

/-- To replace a value leaves the keys as they are. -/
theorem map_fst_replaced (l : List (κ × ν)) (k : κ) (v : ν) :
    (replaced l k v).map Prod.fst = l.map Prod.fst := by
  rw [replaced, List.map_map]
  refine List.map_congr_left fun e _ => ?_
  by_cases h : e.1 = k <;> simp [h]

/-- Put `v` under `k`; `none` is a refusal. -/
def insert (m : BoundedMap κ ν cap) (k : κ) (v : ν) : Option (BoundedMap κ ν cap) :=
  -- an update of a present key needs no room
  if hmem : k ∈ m.keys then
    some ⟨replaced m.entries k v, by rw [map_fst_replaced]; exact m.nodup,
      by rw [replaced, List.length_map]; exact m.length_le⟩
  else if hroom : m.entries.length < cap then
    some ⟨m.entries ++ [(k, v)],
      by rw [List.map_append]; exact m.nodup.append (List.nodup_singleton _) (by
        rw [List.map_singleton]
        exact List.disjoint_singleton.mpr hmem),
      by rw [List.length_append]; exact hroom⟩
  else none

section Insert

variable {m m' : BoundedMap κ ν cap} {k : κ} {v : ν}

/-- An accepted insert adds its key at the end, unless the key is there. -/
theorem keys_of_insert (h : m.insert k v = some m') :
    m'.keys = if k ∈ m.keys then m.keys else m.keys ++ [k] := by
  unfold insert at h
  by_cases hmem : k ∈ m.keys
  · rw [dif_pos hmem, Option.some.injEq] at h
    rw [if_pos hmem, ← h]
    exact map_fst_replaced _ _ _
  · rw [dif_neg hmem] at h
    split at h
    · rw [Option.some.injEq] at h
      rw [if_neg hmem, ← h]
      exact List.map_append
    · exact absurd h (by simp)

/-- Exactly the inserts of a new key into a full map are refused. -/
theorem insert_eq_none : m.insert k v = none ↔ k ∉ m.keys ∧ m.keys.length = cap := by
  have hle := m.length_le
  unfold insert
  rw [length_keys]
  by_cases hmem : k ∈ m.keys
  · simp [hmem]
  · by_cases hroom : m.entries.length < cap
    · have hne : m.entries.length ≠ cap := by omega
      simp [hmem, hroom, hne]
    · simp [hmem, hroom]
      omega

/-- Every entry of the map after an insert is an old one or carries the inserted value. -/
theorem mem_entries_of_insert (h : m.insert k v = some m') {e : κ × ν} (he : e ∈ m'.entries) :
    e ∈ m.entries ∨ e.2 = v := by
  unfold insert at h
  split at h
  · obtain rfl := Option.some.inj h
    obtain ⟨e', he', rfl⟩ := List.mem_map.mp he
    by_cases hk : e'.1 = k
    · right
      rw [if_pos hk]
    · left
      rw [if_neg hk]
      exact he'
  · split at h
    · obtain rfl := Option.some.inj h
      rcases List.mem_append.mp he with he | he
      · exact Or.inl he
      · right
        rw [List.mem_singleton.mp he]
    · exact absurd h (by simp)

end Insert

/-- Where every value is `v`, the keys decide every lookup. -/
theorem lookup_of_forall {m : BoundedMap κ ν cap} {v : ν} (h : ∀ e ∈ m.entries, e.2 = v) (k : κ) :
    m.lookup k = if k ∈ m.keys then some v else none := by
  unfold lookup
  cases hfind : m.entries.find? fun e => e.1 = k with
  | some e =>
    have hk : e.1 = k := by simpa using List.find?_some hfind
    have hmem := List.mem_of_find?_eq_some hfind
    have hkey : k ∈ m.keys := List.mem_map.mpr ⟨e, hmem, hk⟩
    rw [if_pos hkey, Option.map_some, h e hmem]
  | none =>
    have hnot : k ∉ m.keys := by
      intro hmem
      obtain ⟨e, he, rfl⟩ := List.mem_map.mp hmem
      exact List.find?_eq_none.mp hfind e he (by simp)
    rw [if_neg hnot, Option.map_none]

/-! ## Sequences of inserts -/

/-- Insert every key with the value `v`; a refused insert is ignored. -/
def insertAll (m : BoundedMap κ ν cap) (ks : List κ) (v : ν) : BoundedMap κ ν cap :=
  ks.foldl (fun m k => (m.insert k v).getD m) m

@[simp] theorem insertAll_nil (m : BoundedMap κ ν cap) (v : ν) : m.insertAll [] v = m := rfl

/-- Two lists of keys, one after the other. -/
theorem insertAll_append (m : BoundedMap κ ν cap) (ks ks' : List κ) (v : ν) :
    m.insertAll (ks ++ ks') v = (m.insertAll ks v).insertAll ks' v := List.foldl_append

/-- An insertion adds its key at the end, unless the key is there or the map is full. -/
theorem keys_insert_getD (m : BoundedMap κ ν cap) (k : κ) (v : ν) :
    ((m.insert k v).getD m).keys =
      if k ∈ m.keys ∨ m.keys.length = cap then m.keys else m.keys ++ [k] := by
  cases h : m.insert k v with
  | some m' =>
    -- an accepted insert rules out the one case of a refusal
    have hsome : ¬ (k ∉ m.keys ∧ m.keys.length = cap) := by
      rw [← insert_eq_none (v := v), h]
      simp
    rw [Option.getD_some, keys_of_insert h]
    by_cases hmem : k ∈ m.keys
    · simp [hmem]
    · have hroom : ¬ m.keys.length = cap := fun hcap => hsome ⟨hmem, hcap⟩
      simp [hmem, hroom]
  | none =>
    rw [Option.getD_none, if_pos (Or.inr (insert_eq_none.mp h).2)]

/-- A key is there behind its insert if the map has room then. -/
theorem mem_keys_insert_getD (m : BoundedMap κ ν cap) (k : κ) (v : ν)
    (h : ((m.insert k v).getD m).keys.length < cap) : k ∈ ((m.insert k v).getD m).keys := by
  rw [keys_insert_getD] at h ⊢
  split at h
  · rename_i hsame
    rw [if_pos hsame]
    exact hsame.resolve_right (by omega)
  · rename_i hnew
    rw [if_neg hnew]
    exact List.mem_append_right _ List.mem_cons_self

/-- No key is ever removed, and none changes its place. -/
theorem keys_prefix_insertAll (m : BoundedMap κ ν cap) (ks : List κ) (v : ν) :
    m.keys <+: (m.insertAll ks v).keys := by
  induction ks generalizing m with
  | nil => exact List.prefix_rfl
  | cons k ks ih =>
    refine List.IsPrefix.trans ?_ (ih _)
    rw [keys_insert_getD]
    split
    · exact List.prefix_rfl
    · exact List.prefix_append _ _

/-- Inserting a sequence into an empty map keeps the first `cap` distinct keys. -/
theorem keys_insertAll (ks : List κ) (v : ν) :
    ((empty : BoundedMap κ ν cap).insertAll ks v).keys = ks.eraseDups.take cap := by
  induction ks using List.reverseRecOn with
  | nil => simp
  | append_singleton ks k ih =>
    rw [insertAll_append]
    show (((empty.insertAll ks v).insert k v).getD (empty.insertAll ks v)).keys = _
    -- the last key of the sequence is the one that may be refused
    rw [keys_insert_getD, ih, List.eraseDups_append]
    by_cases hmem : k ∈ ks
    · -- a repeated key: kept already, or refused before because the map was full
      have hnil : ([k].removeAll ks).eraseDups = [] := by simp [List.removeAll, hmem]
      rw [hnil, List.append_nil, if_pos]
      by_cases hcap : ks.eraseDups.length ≤ cap
      · left
        rw [List.take_of_length_le hcap]
        exact List.mem_eraseDups.mpr hmem
      · right
        rw [List.length_take]
        omega
    · have hone : ([k].removeAll ks).eraseDups = [k] := by
        simp [List.removeAll, hmem, List.eraseDups_cons]
      have hnot : k ∉ ks.eraseDups.take cap := by
        intro h
        exact hmem (List.mem_eraseDups.mp (List.mem_of_mem_take h))
      rw [hone]
      by_cases hcap : ks.eraseDups.length < cap
      · have htake : (ks.eraseDups.take cap).length ≠ cap := by
          rw [List.length_take]
          omega
        have hle : (ks.eraseDups ++ [k]).length ≤ cap := by
          rw [List.length_append]
          exact hcap
        rw [if_neg (not_or.mpr ⟨hnot, htake⟩), List.take_of_length_le hle,
          List.take_of_length_le (Nat.le_of_lt hcap)]
      · have htake : (ks.eraseDups.take cap).length = cap := by
          rw [List.length_take]
          omega
        rw [if_pos (Or.inr htake), List.take_append_of_le_length (by omega)]

/-- Every value is the inserted one. -/
theorem values_insertAll (ks : List κ) (v : ν) :
    ∀ e ∈ ((empty : BoundedMap κ ν cap).insertAll ks v).entries, e.2 = v := by
  induction ks using List.reverseRecOn with
  | nil => simp [empty]
  | append_singleton ks k ih =>
    intro e he
    rw [insertAll_append] at he
    change e ∈ (((empty.insertAll ks v).insert k v).getD (empty.insertAll ks v)).entries at he
    cases h : (empty.insertAll ks v).insert k v with
    | some m' =>
      rw [h, Option.getD_some] at he
      exact (mem_entries_of_insert h he).elim (ih e) id
    | none =>
      rw [h, Option.getD_none] at he
      exact ih e he

/-- The keys of a large enough map show that `eraseDups` leaves no repetition. -/
theorem nodup_eraseDups (ks : List κ) : ks.eraseDups.Nodup := by
  have h := ((empty : BoundedMap κ Unit ks.eraseDups.length).insertAll ks ()).nodup
  change (keys _).Nodup at h
  rwa [keys_insertAll, List.take_length] at h

/-- While they all fit, the inserted keys are the keys, so order and repetition do not matter. -/
theorem lookup_insertAll_congr {ks ks' : List κ} (v : ν) (hsame : ∀ k, k ∈ ks ↔ k ∈ ks')
    (hfit : ks.eraseDups.length ≤ cap) (k : κ) :
    ((empty : BoundedMap κ ν cap).insertAll ks v).lookup k =
      ((empty : BoundedMap κ ν cap).insertAll ks' v).lookup k := by
  -- the same keys without repetitions, in another order
  have hperm : ks.eraseDups.Perm ks'.eraseDups :=
    (List.perm_ext_iff_of_nodup (nodup_eraseDups ks) (nodup_eraseDups ks')).mpr (by
      intro a
      rw [List.mem_eraseDups, List.mem_eraseDups, hsame a])
  have hfit' : ks'.eraseDups.length ≤ cap := hperm.length_eq ▸ hfit
  rw [lookup_of_forall (values_insertAll ks v), lookup_of_forall (values_insertAll ks' v),
    keys_insertAll, keys_insertAll, List.take_of_length_le hfit, List.take_of_length_le hfit']
  simp only [List.mem_eraseDups, hsame k]

end BoundedMap

end CiliumMini
