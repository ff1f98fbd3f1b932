import PatternPages.OrderedMap

/-! The entries of a map are what its look-ups find. -/
namespace PatternPages.OrderedMap

variable {κ ν : Type} [LT κ] [LinearKey κ] [DecidableEq κ]

theorem lookup_eq_some_iff {entries : List (κ × ν)} (h : entries.Pairwise (·.1 < ·.1)) (k : κ) (v : ν) :
    entries.lookup k = some v ↔ (k, v) ∈ entries := by
  induction entries with
  | nil => simp
  | cons e rest ih =>
    obtain ⟨key, value⟩ := e
    obtain ⟨first, tail⟩ := List.pairwise_cons.1 h
    rw [lookup_cons, List.mem_cons]
    by_cases eq : k = key
    · subst eq
      have absent : (k, v) ∉ rest := fun mem => LinearKey.irrefl k (first (k, v) mem)
      simp [absent, eq_comm]
    · simp [eq, ih tail]

theorem get?_eq_some_iff (m : OrderedMap κ ν) (k : κ) (v : ν) : m.get? k = some v ↔ (k, v) ∈ m.toList :=
  lookup_eq_some_iff m.ascending k v

theorem mem_keys_iff (m : OrderedMap κ ν) (k : κ) : k ∈ m.keys ↔ ∃ v, m.get? k = some v := by
  simp [keys, get?_eq_some_iff]

theorem mem_keys_insert [DecidableLT κ] (m : OrderedMap κ ν) (j k : κ) (v : ν) :
    j ∈ (m.insert k v).keys ↔ j = k ∨ j ∈ m.keys := by
  rw [mem_keys_iff, mem_keys_iff, get?_insert]
  by_cases eq : j = k
  · simp [eq]
  · simp [eq]

omit [DecidableEq κ] in
theorem map_fst_updateEntries [DecidableLT κ] {k : κ} (f : Option ν → ν) {entries : List (κ × ν)}
    (h : entries.Pairwise (·.1 < ·.1)) (mem : k ∈ entries.map (·.1)) :
    (updateEntries k f entries).map (·.1) = entries.map (·.1) := by
  induction entries with
  | nil => exact absurd mem List.not_mem_nil
  | cons e rest ih =>
    obtain ⟨key, value⟩ := e
    obtain ⟨first, tail⟩ := List.pairwise_cons.1 h
    have first : ∀ j ∈ rest.map (·.1), key < j := List.forall_mem_map.2 first
    rw [List.map_cons, List.mem_cons] at mem
    rw [updateEntries]
    by_cases below : k < key
    · rcases mem with rfl | mem
      · exact absurd below (LinearKey.irrefl k)
      · exact absurd (LinearKey.trans below (first k mem)) (LinearKey.irrefl k)
    · rw [if_neg below]
      by_cases above : key < k
      · rcases mem with rfl | mem
        · exact absurd above (LinearKey.irrefl k)
        · rw [if_pos above, List.map_cons, List.map_cons, ih tail mem]
      · rw [if_neg above]
        rfl

omit [DecidableEq κ] in
theorem keys_insert_of_mem [DecidableLT κ] {m : OrderedMap κ ν} {k : κ} (mem : k ∈ m.keys) (v : ν) :
    (m.insert k v).keys = m.keys :=
  map_fst_updateEntries _ m.ascending mem

/-- A set is determined by its members. -/
theorem eq_of_mem_keys {a b : OrderedSet κ} (same : ∀ k, k ∈ a.keys ↔ k ∈ b.keys) : a = b := by
  apply OrderedMap.ext
  intro k
  have member := same k
  simp only [mem_keys_iff] at member
  cases hereA : a.get? k with
  | some _ =>
    obtain ⟨_, hereB⟩ := member.1 ⟨(), hereA⟩
    rw [hereB]
  | none =>
    cases hereB : b.get? k with
    | some _ =>
      obtain ⟨_, there⟩ := member.2 ⟨(), hereB⟩
      cases hereA.symm.trans there
    | none => rfl

end PatternPages.OrderedMap
