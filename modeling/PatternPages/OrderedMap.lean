/-! Finite maps as entry lists that ascend strictly by key. Two maps with the same look-ups are equal
(`ext`), so a map does not remember the order in which its entries came. A set is a map to `Unit`. -/
namespace PatternPages

/-- Keys of which any two different ones come one before the other. -/
class LinearKey (κ : Type) [LT κ] : Prop where
  irrefl (a : κ) : ¬ a < a
  trans {a b c : κ} : a < b → b < c → a < c
  trichotomy (a b : κ) : a < b ∨ a = b ∨ b < a

instance : LinearKey Nat where
  irrefl := Nat.lt_irrefl
  trans := Nat.lt_trans
  trichotomy := Nat.lt_trichotomy

instance : LinearKey Char where
  irrefl c := Nat.lt_irrefl c.val.toNat
  trans hab hbc := UInt32.lt_trans hab hbc
  trichotomy a b := by
    rcases Nat.lt_trichotomy a.val.toNat b.val.toNat with lt | eq | gt
    · exact .inl lt
    · exact .inr (.inl (Char.ext (UInt32.toNat_inj.1 eq)))
    · exact .inr (.inr gt)

/-- Lists are compared at the first place where they differ; one that ends there is the smaller. -/
instance {κ : Type} [LT κ] [LinearKey κ] : LinearKey (List κ) where
  irrefl a := by
    induction a with
    | nil => exact List.not_lt_nil []
    | cons x a ih => simp [List.cons_lt_cons_iff, LinearKey.irrefl x, ih]
  trans {a b c} hab hbc := by
    induction c generalizing a b with
    | nil => exact absurd hbc (List.not_lt_nil b)
    | cons z c ih =>
      cases a with
      | nil => exact List.nil_lt_cons z c
      | cons x a =>
        cases b with
        | nil => exact absurd hab (List.not_lt_nil _)
        | cons y b =>
          rw [List.cons_lt_cons_iff] at hab hbc ⊢
          rcases hab with lt | ⟨rfl, lt⟩
          · rcases hbc with lt' | ⟨rfl, _⟩
            · exact .inl (LinearKey.trans lt lt')
            · exact .inl lt
          · rcases hbc with lt' | ⟨rfl, lt'⟩
            · exact .inl lt'
            · exact .inr ⟨rfl, ih lt lt'⟩
  trichotomy a b := by
    induction a generalizing b with
    | nil =>
      cases b with
      | nil => exact .inr (.inl rfl)
      | cons y b => exact .inl (List.nil_lt_cons y b)
    | cons x a ih =>
      cases b with
      | nil => exact .inr (.inr (List.nil_lt_cons x a))
      | cons y b =>
        simp only [List.cons_lt_cons_iff]
        rcases LinearKey.trichotomy x y with lt | rfl | gt
        · exact .inl (.inl lt)
        · rcases ih b with lt | rfl | gt
          · exact .inl (.inr ⟨rfl, lt⟩)
          · exact .inr (.inl rfl)
          · exact .inr (.inr (.inr ⟨rfl, gt⟩))
        · exact .inr (.inr (.inl gt))

/-- Entries strictly ascending by key, hence one value for each key. -/
structure OrderedMap (κ ν : Type) [LT κ] where
  toList : List (κ × ν)
  ascending : toList.Pairwise (·.1 < ·.1)

namespace OrderedMap

variable {κ ν : Type} [LT κ]

instance [DecidableEq κ] [DecidableEq ν] : DecidableEq (OrderedMap κ ν) := fun a b =>
  if h : a.toList = b.toList then
    isTrue (by cases a; cases b; cases h; rfl)
  else
    isFalse (fun e => h (e ▸ rfl))

def empty : OrderedMap κ ν := ⟨[], List.Pairwise.nil⟩

instance : Inhabited (OrderedMap κ ν) := ⟨empty⟩

def isEmpty (m : OrderedMap κ ν) : Bool := m.toList.isEmpty

def size (m : OrderedMap κ ν) : Nat := m.toList.length

def keys (m : OrderedMap κ ν) : List κ := m.toList.map (·.1)

def get? [DecidableEq κ] (m : OrderedMap κ ν) (k : κ) : Option ν := m.toList.lookup k

def contains [DecidableEq κ] (m : OrderedMap κ ν) (k : κ) : Bool := (m.get? k).isSome

/-- Gives `k` the value `f` of what it had, and puts it in its place if it had none. -/
def updateEntries [DecidableLT κ] (k : κ) (f : Option ν → ν) : List (κ × ν) → List (κ × ν)
  | [] => [(k, f none)]
  | (key, value) :: rest =>
    if k < key then (k, f none) :: (key, value) :: rest
    else if key < k then (key, value) :: updateEntries k f rest
    else (key, f (some value)) :: rest

theorem mem_updateEntries [DecidableLT κ] {k : κ} {f : Option ν → ν} {e : κ × ν}
    {entries : List (κ × ν)} (h : e ∈ updateEntries k f entries) :
    e.1 = k ∨ ∃ d ∈ entries, e.1 = d.1 := by
  induction entries with
  | nil => simp_all [updateEntries]
  | cons d rest ih =>
    simp only [updateEntries] at h
    split at h
    · rcases List.mem_cons.1 h with rfl | h
      · exact .inl rfl
      · exact .inr ⟨e, h, rfl⟩
    · split at h
      · rcases List.mem_cons.1 h with rfl | h
        · exact .inr ⟨_, List.mem_cons_self, rfl⟩
        · rcases ih h with h | ⟨x, hx, hk⟩
          · exact .inl h
          · exact .inr ⟨x, List.mem_cons_of_mem _ hx, hk⟩
      · rcases List.mem_cons.1 h with rfl | h
        · exact .inr ⟨_, List.mem_cons_self, rfl⟩
        · exact .inr ⟨e, List.mem_cons_of_mem _ h, rfl⟩

section Order

variable [LinearKey κ]

theorem ascending_updateEntries [DecidableLT κ] (k : κ) (f : Option ν → ν) (entries : List (κ × ν))
    (h : entries.Pairwise (·.1 < ·.1)) : (updateEntries k f entries).Pairwise (·.1 < ·.1) := by
  induction entries with
  | nil => simp [updateEntries]
  | cons d rest ih =>
    obtain ⟨first, tail⟩ := List.pairwise_cons.1 h
    simp only [updateEntries]
    split
    case isTrue below =>
      refine List.pairwise_cons.2 ⟨fun e he => ?_, h⟩
      rcases List.mem_cons.1 he with rfl | he
      · exact below
      · exact LinearKey.trans below (first e he)
    case isFalse =>
      split
      case isTrue above =>
        refine List.pairwise_cons.2 ⟨fun e he => ?_, ih tail⟩
        rcases mem_updateEntries he with hk | ⟨x, hx, hk⟩
        · exact hk ▸ above
        · exact hk ▸ first x hx
      case isFalse => exact List.pairwise_cons.2 ⟨first, tail⟩

def update [DecidableLT κ] (m : OrderedMap κ ν) (k : κ) (f : Option ν → ν) : OrderedMap κ ν :=
  ⟨updateEntries k f m.toList, ascending_updateEntries k f m.toList m.ascending⟩

def insert [DecidableLT κ] (m : OrderedMap κ ν) (k : κ) (v : ν) : OrderedMap κ ν :=
  m.update k (fun _ => v)

/-- The map of the pairs; the last value of a key counts. -/
def ofList [DecidableLT κ] (pairs : List (κ × ν)) : OrderedMap κ ν :=
  pairs.foldl (fun m e => m.insert e.1 e.2) empty

end Order

section Laws

variable [LinearKey κ] [DecidableEq κ]

omit [LT κ] [LinearKey κ] in
theorem lookup_cons (k : κ) (e : κ × ν) (rest : List (κ × ν)) :
    (e :: rest).lookup k = if k = e.1 then some e.2 else rest.lookup k := by
  obtain ⟨key, value⟩ := e
  by_cases h : k = key <;> simp [List.lookup_cons, h]
  rw [beq_false_of_ne h]

theorem lookup_eq_none_of_below {k : κ} {entries : List (κ × ν)}
    (h : ∀ e ∈ entries, k < e.1) : entries.lookup k = none := by
  induction entries with
  | nil => rfl
  | cons e rest ih =>
    have ne : k ≠ e.1 := fun eq => LinearKey.irrefl _ (by simpa [← eq] using h e List.mem_cons_self)
    simp [lookup_cons, ne, ih (fun d hd => h d (List.mem_cons_of_mem _ hd))]

theorem lookup_updateEntries [DecidableLT κ] (j k : κ) (f : Option ν → ν) (entries : List (κ × ν))
    (h : entries.Pairwise (·.1 < ·.1)) :
    (updateEntries k f entries).lookup j =
      if j = k then some (f (entries.lookup k)) else entries.lookup j := by
  induction entries with
  | nil => by_cases hj : j = k <;> simp [updateEntries, lookup_cons, hj]
  | cons d rest ih =>
    obtain ⟨key, value⟩ := d
    obtain ⟨first, tail⟩ := List.pairwise_cons.1 h
    simp only [updateEntries]
    split
    case isTrue below =>
      have absent : List.lookup k ((key, value) :: rest) = none :=
        lookup_eq_none_of_below fun e he => by
          rcases List.mem_cons.1 he with rfl | he
          · exact below
          · exact LinearKey.trans below (first e he)
      rw [absent]
      by_cases hj : j = k <;> simp [lookup_cons, hj]
    case isFalse notBelow =>
      split
      case isTrue above =>
        have ne : k ≠ key := fun eq => LinearKey.irrefl _ (eq ▸ above)
        by_cases hj : j = key
        · subst hj
          simp [lookup_cons, Ne.symm ne]
        · simp [lookup_cons, hj, ne, ih tail]
      case isFalse notAbove =>
        have eq : k = key := LinearKey.trichotomy k key |>.elim (absurd · notBelow)
          (·.elim id (absurd · notAbove))
        subst eq
        by_cases hj : j = k <;> simp [lookup_cons, hj]

omit [LinearKey κ] in
theorem get?_empty (j : κ) : (empty : OrderedMap κ ν).get? j = none := rfl

theorem get?_update [DecidableLT κ] (m : OrderedMap κ ν) (k j : κ) (f : Option ν → ν) :
    (m.update k f).get? j = if j = k then some (f (m.get? k)) else m.get? j :=
  lookup_updateEntries j k f m.toList m.ascending

theorem get?_insert [DecidableLT κ] (m : OrderedMap κ ν) (k j : κ) (v : ν) :
    (m.insert k v).get? j = if j = k then some v else m.get? j :=
  get?_update m k j _

theorem eq_of_lookup_eq {a b : List (κ × ν)} (ha : a.Pairwise (·.1 < ·.1))
    (hb : b.Pairwise (·.1 < ·.1)) (h : ∀ k, a.lookup k = b.lookup k) : a = b := by
  induction a generalizing b with
  | nil =>
    cases b with
    | nil => rfl
    | cons e rest => simpa [lookup_cons] using h e.1
  | cons d as ih =>
    cases b with
    | nil => simpa [lookup_cons] using h d.1
    | cons e bs =>
      obtain ⟨firstA, tailA⟩ := List.pairwise_cons.1 ha
      obtain ⟨firstB, tailB⟩ := List.pairwise_cons.1 hb
      have noneA : ∀ k, ¬ d.1 < k → as.lookup k = none := fun k hk =>
        lookup_eq_none_of_below fun x hx => by
          rcases LinearKey.trichotomy d.1 k with lt | eq | gt
          · exact absurd lt hk
          · exact eq ▸ firstA x hx
          · exact LinearKey.trans gt (firstA x hx)
      have noneB : ∀ k, ¬ e.1 < k → bs.lookup k = none := fun k hk =>
        lookup_eq_none_of_below fun x hx => by
          rcases LinearKey.trichotomy e.1 k with lt | eq | gt
          · exact absurd lt hk
          · exact eq ▸ firstB x hx
          · exact LinearKey.trans gt (firstB x hx)
      have key : d.1 = e.1 := by
        rcases LinearKey.trichotomy d.1 e.1 with lt | eq | gt
        · have := h d.1
          have ne : d.1 ≠ e.1 := fun eq => LinearKey.irrefl _ (by simpa [← eq] using lt)
          simp [lookup_cons, ne, noneB d.1 (fun lt' => LinearKey.irrefl _ (LinearKey.trans lt lt'))] at this
        · exact eq
        · have := h e.1
          have ne : e.1 ≠ d.1 := fun eq => LinearKey.irrefl _ (by simpa [eq] using gt)
          simp [lookup_cons, ne, noneA e.1 (fun lt' => LinearKey.irrefl _ (LinearKey.trans gt lt'))] at this
      have value : d.2 = e.2 := by simpa [lookup_cons, key] using h d.1
      have rest : as = bs := ih tailA tailB fun k => by
        by_cases hk : k = d.1
        · subst hk
          rw [noneA d.1 (LinearKey.irrefl _), noneB d.1 (key ▸ LinearKey.irrefl _)]
        · have := h k
          have hk' : k ≠ e.1 := key ▸ hk
          simpa [lookup_cons, hk, hk'] using this
      rw [rest, show d = e from Prod.ext key value]

/-- A map is determined by its look-ups. -/
theorem ext {a b : OrderedMap κ ν} (h : ∀ k, a.get? k = b.get? k) : a = b := by
  obtain ⟨as, ha⟩ := a
  obtain ⟨bs, hb⟩ := b
  obtain rfl : as = bs := eq_of_lookup_eq ha hb h
  rfl

end Laws

end OrderedMap

/-- A set, listed in ascending order by `keys`. -/
abbrev OrderedSet (κ : Type) [LT κ] := OrderedMap κ Unit

end PatternPages
