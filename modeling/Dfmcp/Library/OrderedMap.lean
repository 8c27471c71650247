import Mathlib

/-!
# Ordered maps

A map with ordered keys, held as its entries in ascending key order. The order is part of the
type: `OMap K V lo` lists entries whose keys all lie above the bound `lo`, and every entry
raises the bound for the ones after it. An out-of-order or repeated key cannot be written
down, so two maps with the same lookups are the *same* value (`OMap.ext_get?`) and equality of
maps is equality of lookups.

Because the type is an ordinary inductive family it can be nested: a tree whose nodes are maps
of trees is a plain inductive type. That is the reason for not using a subtype of lists here.

* `get?`, `insert`, `erase`, `filter`, `mapValues` — the operations;
* `get?_insert`, `get?_erase`, `get?_filter`, `get?_mapValues` — what each does to a lookup;
* `mem_toList_iff` — iteration yields exactly the entries that lookup finds, in key order.
-/

universe u v w

/-- Entries in ascending key order, every key above `lo`. -/
inductive OMap (K : Type u) [LT K] (V : Type v) : Option K → Type (max u v)
  | nil {lo : Option K} : OMap K V lo
  | cons {lo : Option K} (key : K) (above : ∀ l ∈ lo, l < key) (value : V)
      (rest : OMap K V (some key)) : OMap K V lo

/-- An ordered map: entries in ascending key order, with no bound. -/
abbrev BTreeMap (K : Type u) [LT K] (V : Type v) := OMap K V none

namespace OMap

section Entries

variable {K : Type u} {V : Type v} [LT K] {lo : Option K}

/-- The entries, in key order. -/
def toList {lo : Option K} : OMap K V lo → List (K × V)
  | nil => []
  | cons k _ v rest => (k, v) :: rest.toList

/-- The keys, in order. -/
def keys (m : OMap K V lo) : List K := m.toList.map Prod.fst

/-- The values, in key order. -/
def values (m : OMap K V lo) : List V := m.toList.map Prod.snd

/-- The number of entries. -/
def size (m : OMap K V lo) : Nat := m.toList.length

@[simp] theorem toList_nil : (nil : OMap K V lo).toList = [] := rfl

@[simp] theorem toList_cons (k : K) (h : ∀ l ∈ lo, l < k) (v : V) (rest : OMap K V (some k)) :
    (cons k h v rest).toList = (k, v) :: rest.toList := rfl

theorem toList_injective {lo : Option K} (a b : OMap K V lo) (h : a.toList = b.toList) :
    a = b := by
  induction a with
  | nil =>
      cases b with
      | nil => rfl
      | cons k hk v rest => simp at h
  | cons k hk v rest ih =>
      cases b with
      | nil => simp at h
      | cons k' hk' v' rest' =>
          simp only [toList_cons, List.cons.injEq, Prod.mk.injEq] at h
          obtain ⟨⟨rfl, rfl⟩, hrest⟩ := h
          rw [ih rest' hrest]

instance [DecidableEq K] [DecidableEq V] : DecidableEq (OMap K V lo) := fun a b =>
  decidable_of_iff (a.toList = b.toList) ⟨toList_injective a b, fun h => by rw [h]⟩

/-- Change every value in place, leaving the keys. -/
def mapValues {V' : Type w} (f : K → V → V') {lo : Option K} : OMap K V lo → OMap K V' lo
  | nil => nil
  | cons k h v rest => cons k h (f k v) (rest.mapValues f)

@[simp] theorem toList_mapValues {V' : Type w} (f : K → V → V') {lo : Option K}
    (m : OMap K V lo) : (m.mapValues f).toList = m.toList.map fun e => (e.1, f e.1 e.2) := by
  induction m with
  | nil => rfl
  | cons k h v rest ih => simp [mapValues, ih]

/-- Values that a function leaves alone stay as they are. -/
theorem mapValues_eq_self {m : OMap K V lo} {f : V → V} (h : ∀ v ∈ m.values, f v = v) :
    m.mapValues (fun _ => f) = m := by
  refine toList_injective _ _ ?_
  rw [toList_mapValues]
  refine (List.map_congr_left fun x hx => ?_).trans (List.map_id _)
  rw [h x.2 (List.mem_map_of_mem hx)]
  rfl

end Entries

section Lookup

variable {K : Type u} {V : Type v} [LinearOrder K] {lo : Option K}

/-- The value at a key. -/
def get? {lo : Option K} : OMap K V lo → K → Option V
  | nil, _ => none
  | cons k _ v rest, q => if q = k then some v else rest.get? q

/-- Whether a key has a value. -/
def contains (m : OMap K V lo) (q : K) : Bool := (m.get? q).isSome

/-- Loosen the bound. -/
def relax {lo lo' : Option K} (h : ∀ l ∈ lo', ∀ k, (∀ l ∈ lo, l < k) → l < k) :
    OMap K V lo → OMap K V lo'
  | nil => nil
  | cons k above v rest => cons k (fun l hl => h l hl k above) v rest

/-- Put a value at a key above the bound. -/
def insertAbove {lo : Option K} (q : K) (w : V) :
    OMap K V lo → (∀ l ∈ lo, l < q) → OMap K V lo
  | nil, h => cons q h w nil
  | cons k hk v rest, h =>
      if hlt : q < k then cons q h w (cons k (fun _ hl => Option.some.inj hl ▸ hlt) v rest)
      else if heq : q = k then cons k hk w rest
      else cons k hk v (rest.insertAbove q w fun _ hl => Option.some.inj hl ▸
        lt_of_le_of_ne (not_lt.1 hlt) (Ne.symm heq))

/-- Put a value at a key. -/
def insert (m : BTreeMap K V) (q : K) (w : V) : BTreeMap K V :=
  m.insertAbove q w fun _ hl => by cases hl

/-- Keep the entries a test accepts. -/
def filter {lo : Option K} (p : K → V → Bool) : OMap K V lo → OMap K V lo
  | nil => nil
  | cons k hk v rest =>
      if p k v then cons k hk v (rest.filter p)
      else (rest.filter p).relax fun l hl _ hk' => lt_trans (hk l hl) (hk' k rfl)

/-- Drop a key. -/
def erase (m : OMap K V lo) (q : K) : OMap K V lo := m.filter fun k _ => k ≠ q

/-- Collect entries in any order, later ones replacing earlier ones. -/
def ofList (l : List (K × V)) : BTreeMap K V := l.foldl (fun m e => m.insert e.1 e.2) nil

/-! ## Keys are in order -/

theorem above_of_mem {lo : Option K} {m : OMap K V lo} {e : K × V} (h : e ∈ m.toList) :
    ∀ l ∈ lo, l < e.1 := by
  induction m with
  | nil => simp at h
  | cons k hk v rest ih =>
      rcases List.mem_cons.1 h with rfl | h
      · exact hk
      · intro l hl
        exact lt_trans (hk l hl) (ih h k rfl)

theorem toList_sorted {lo : Option K} (m : OMap K V lo) :
    m.toList.Pairwise fun a b => a.1 < b.1 := by
  induction m with
  | nil => exact List.Pairwise.nil
  | cons k hk v rest ih => exact List.pairwise_cons.2 ⟨fun e he => above_of_mem he k rfl, ih⟩

/-- Any strictly ascending list is the entries of a map. -/
theorem exists_toList_eq {lo : Option K} {l : List (K × V)}
    (hsorted : l.Pairwise fun a b => a.1 < b.1) (habove : ∀ e ∈ l, ∀ b ∈ lo, b < e.1) :
    ∃ m : OMap K V lo, m.toList = l := by
  induction l generalizing lo with
  | nil => exact ⟨nil, rfl⟩
  | cons e l ih =>
      obtain ⟨hhead, htail⟩ := List.pairwise_cons.1 hsorted
      obtain ⟨m, hm⟩ := @ih (some e.1) htail fun x hx b hb => Option.some.inj hb ▸ hhead x hx
      exact ⟨cons e.1 (habove e List.mem_cons_self) e.2 m, by rw [toList_cons, hm]⟩

theorem toList_nodup (m : OMap K V lo) : m.toList.Nodup := by
  refine m.toList_sorted.imp ?_
  rintro a b hlt rfl
  exact lt_irrefl _ hlt

theorem keys_sorted (m : OMap K V lo) : m.keys.Pairwise (· < ·) :=
  List.pairwise_map.2 m.toList_sorted

/-! ## Lookups -/

@[simp] theorem get?_nil (q : K) : (nil : OMap K V lo).get? q = none := rfl

theorem get?_cons (k : K) (h : ∀ l ∈ lo, l < k) (v : V) (rest : OMap K V (some k)) (q : K) :
    (cons k h v rest).get? q = if q = k then some v else rest.get? q := rfl

theorem get?_eq_none_of_le {lo : Option K} (m : OMap K V lo) {q : K} (h : ∃ l ∈ lo, q ≤ l) :
    m.get? q = none := by
  induction m with
  | nil => rfl
  | @cons lo k hk v rest ih =>
      obtain ⟨l, hl, hq⟩ := h
      have hlt : q < k := lt_of_le_of_lt hq (hk l hl)
      rw [get?_cons, if_neg hlt.ne, ih ⟨k, rfl, hlt.le⟩]

/-- Iteration yields exactly what lookup finds. -/
theorem mem_toList_iff {lo : Option K} (m : OMap K V lo) (q : K) (w : V) :
    (q, w) ∈ m.toList ↔ m.get? q = some w := by
  induction m with
  | nil => simp
  | cons k hk v rest ih =>
      rw [toList_cons, List.mem_cons, get?_cons, ih, Prod.mk.injEq]
      by_cases hq : q = k
      · subst hq
        rw [get?_eq_none_of_le rest ⟨q, rfl, le_rfl⟩]
        simp [eq_comm]
      · simp [hq]

/-- A property of every lookup is a property of every entry. -/
theorem forall_get?_iff (m : OMap K V lo) {p : K → V → Prop} :
    (∀ q w, m.get? q = some w → p q w) ↔ ∀ e ∈ m.toList, p e.1 e.2 :=
  ⟨fun h e he => h e.1 e.2 ((mem_toList_iff m e.1 e.2).1 he),
    fun h q w hq => h (q, w) ((mem_toList_iff m q w).2 hq)⟩

theorem contains_iff (m : OMap K V lo) (q : K) : m.contains q = true ↔ ∃ w, m.get? q = some w :=
  Option.isSome_iff_exists

theorem contains_eq_false_iff (m : OMap K V lo) (q : K) :
    m.contains q = false ↔ m.get? q = none := by
  simp [contains]

theorem mem_keys_iff (m : OMap K V lo) (q : K) : q ∈ m.keys ↔ m.contains q = true := by
  rw [contains_iff, keys, List.mem_map]
  constructor
  · rintro ⟨⟨k, v⟩, hmem, rfl⟩
    exact ⟨v, (mem_toList_iff m k v).1 hmem⟩
  · rintro ⟨w, hw⟩
    exact ⟨(q, w), (mem_toList_iff m q w).2 hw, rfl⟩

theorem mem_values_iff (m : OMap K V lo) (w : V) : w ∈ m.values ↔ ∃ q, m.get? q = some w := by
  rw [values, List.mem_map]
  constructor
  · rintro ⟨⟨k, v⟩, hmem, rfl⟩
    exact ⟨k, (mem_toList_iff m k v).1 hmem⟩
  · rintro ⟨q, hq⟩
    exact ⟨(q, w), (mem_toList_iff m q w).2 hq, rfl⟩

/-- **Maps with the same lookups are equal.** -/
theorem ext_get? {lo : Option K} {a b : OMap K V lo} (h : ∀ q, a.get? q = b.get? q) : a = b := by
  have hperm : a.toList.Perm b.toList := by
    refine (List.perm_ext_iff_of_nodup a.toList_nodup b.toList_nodup).2 fun e => ?_
    rw [mem_toList_iff a e.1 e.2, mem_toList_iff b e.1 e.2, h]
  refine toList_injective a b (hperm.eq_of_pairwise ?_ a.toList_sorted b.toList_sorted)
  intro x y _ _ hxy hyx
  exact absurd hxy (lt_asymm hyx)

/-- Maps that have the same keys list them alike, whatever their values. -/
theorem keys_eq_of_contains {V' : Type w} {a : OMap K V lo} {b : OMap K V' lo}
    (h : ∀ q, a.contains q = b.contains q) : a.keys = b.keys := by
  have hnodup : ∀ l : List K, l.Pairwise (· < ·) → l.Nodup := fun l hl => hl.imp ne_of_lt
  have hperm : a.keys.Perm b.keys := by
    refine (List.perm_ext_iff_of_nodup (hnodup _ a.keys_sorted) (hnodup _ b.keys_sorted)).2 ?_
    intro q
    rw [mem_keys_iff, mem_keys_iff, h]
  refine hperm.eq_of_pairwise ?_ a.keys_sorted b.keys_sorted
  intro x y _ _ hxy hyx
  exact absurd hxy (lt_asymm hyx)

/-! ## Sizes -/

theorem keys_nodup (m : OMap K V lo) : m.keys.Nodup := m.keys_sorted.imp ne_of_lt

theorem length_keys (m : OMap K V lo) : m.keys.length = m.size := List.length_map _

theorem size_eq_zero_iff (m : OMap K V lo) : m.size = 0 ↔ ∀ q, m.contains q = false := by
  rw [← length_keys, List.length_eq_zero_iff, List.eq_nil_iff_forall_not_mem]
  simp only [mem_keys_iff, Bool.not_eq_true]

/-- A map has at most as many entries as one that has all its keys. -/
theorem size_le_of_subset {V' : Type w} {a : OMap K V lo} {b : OMap K V' lo}
    (h : ∀ q, a.contains q = true → b.contains q = true) : a.size ≤ b.size := by
  rw [← length_keys, ← length_keys]
  refine (List.subperm_of_subset a.keys_nodup fun q hq => ?_).length_le
  exact (mem_keys_iff b q).2 (h q ((mem_keys_iff a q).1 hq))

/-- A map whose keys lie in another no larger than it has the same keys. -/
theorem contains_of_size_le {V' : Type w} {a : OMap K V lo} {b : OMap K V' lo}
    (h : ∀ q, a.contains q = true → b.contains q = true) (hsize : b.size ≤ a.size) (q : K)
    (hq : b.contains q = true) : a.contains q = true := by
  have hsub : a.keys.Subperm b.keys :=
    List.subperm_of_subset a.keys_nodup fun q hq => (mem_keys_iff b q).2 (h q ((mem_keys_iff a q).1 hq))
  have hperm : a.keys.Perm b.keys := by
    apply hsub.perm_of_length_le
    rwa [length_keys, length_keys]
  exact (mem_keys_iff a q).1 (hperm.mem_iff.2 ((mem_keys_iff b q).2 hq))

/-- Counting the keys of a larger map that a smaller one has. -/
theorem size_eq_countP {V' : Type w} {a : OMap K V lo} {b : OMap K V' lo}
    (h : ∀ q, a.contains q = true → b.contains q = true) :
    a.size = b.keys.countP a.contains := by
  rw [← length_keys, List.countP_eq_length_filter]
  apply List.Perm.length_eq
  refine (List.perm_ext_iff_of_nodup a.keys_nodup (b.keys_nodup.filter _)).2 fun q => ?_
  rw [List.mem_filter, mem_keys_iff, mem_keys_iff]
  exact ⟨fun hq => ⟨h q hq, hq⟩, fun hq => hq.2⟩

/-! ## What the operations do to a lookup -/

@[simp] theorem get?_relax {lo lo' : Option K}
    (h : ∀ l ∈ lo', ∀ k, (∀ l ∈ lo, l < k) → l < k) (m : OMap K V lo) (q : K) :
    (m.relax h).get? q = m.get? q := by
  cases m <;> rfl

theorem get?_insertAbove {lo : Option K} (m : OMap K V lo) (k : K) (w : V)
    (h : ∀ l ∈ lo, l < k) (q : K) :
    (m.insertAbove k w h).get? q = if q = k then some w else m.get? q := by
  induction m with
  | nil => rfl
  | cons k' hk' v rest ih =>
      rw [insertAbove]
      split
      · rfl
      · split
        · rename_i heq
          subst heq
          simp only [get?_cons]
          split <;> rfl
        · rename_i hne
          simp only [get?_cons, ih]
          by_cases hq : q = k'
          · subst hq
            rw [if_pos rfl, if_pos rfl, if_neg (Ne.symm hne)]
          · rw [if_neg hq, if_neg hq]

@[simp] theorem get?_insert (m : BTreeMap K V) (k : K) (w : V) (q : K) :
    (m.insert k w).get? q = if q = k then some w else m.get? q :=
  get?_insertAbove m k w _ q

@[simp] theorem get?_filter {lo : Option K} (p : K → V → Bool) (m : OMap K V lo) (q : K) :
    (m.filter p).get? q = (m.get? q).filter (p q) := by
  induction m with
  | nil => rfl
  | cons k hk v rest ih =>
      rw [get?_cons]
      by_cases hq : q = k
      · subst hq
        have hnone : rest.get? q = none := get?_eq_none_of_le rest ⟨q, rfl, le_rfl⟩
        by_cases hp : p q v
        · simp [filter, get?_cons, Option.filter, hp]
        · simp [filter, ih, hnone, Option.filter, hp]
      · by_cases hp : p k v
        · simp [filter, get?_cons, hp, hq, ih]
        · simp [filter, hp, hq, ih]

@[simp] theorem get?_erase (m : OMap K V lo) (k q : K) :
    (m.erase k).get? q = if q = k then none else m.get? q := by
  rw [erase, get?_filter]
  by_cases hq : q = k
  · subst hq
    cases m.get? q <;> simp [Option.filter]
  · cases m.get? q <;> simp [Option.filter, hq]

@[simp] theorem get?_mapValues {V' : Type w} (f : K → V → V') {lo : Option K} (m : OMap K V lo)
    (q : K) : (m.mapValues f).get? q = (m.get? q).map (f q) := by
  induction m with
  | nil => rfl
  | cons k hk v rest ih =>
      simp only [mapValues, get?_cons, ih]
      by_cases hq : q = k
      · simp [hq]
      · simp [hq]

@[simp] theorem contains_mapValues {V' : Type w} (f : K → V → V') (m : OMap K V lo) (q : K) :
    (m.mapValues f).contains q = m.contains q := by
  simp [contains]

@[simp] theorem contains_insert (m : BTreeMap K V) (k : K) (w : V) (q : K) :
    (m.insert k w).contains q = (decide (q = k) || m.contains q) := by
  by_cases hq : q = k
  · simp [contains, hq]
  · simp [contains, hq]

@[simp] theorem contains_erase (m : OMap K V lo) (k q : K) :
    (m.erase k).contains q = (decide (q ≠ k) && m.contains q) := by
  by_cases hq : q = k
  · simp [contains, hq]
  · simp [contains, hq]

/-- A new key is one more entry. -/
theorem toList_insert_perm (m : BTreeMap K V) {k : K} (h : m.get? k = none) (w : V) :
    (m.insert k w).toList.Perm ((k, w) :: m.toList) := by
  have hfresh : (k, w) ∉ m.toList := by
    intro hmem
    rw [mem_toList_iff, h] at hmem
    cases hmem
  refine (List.perm_ext_iff_of_nodup (toList_nodup _)
    (List.nodup_cons.2 ⟨hfresh, m.toList_nodup⟩)).2 fun e => ?_
  obtain ⟨q, v⟩ := e
  rw [mem_toList_iff, get?_insert, List.mem_cons, mem_toList_iff, Prod.mk.injEq]
  by_cases hq : q = k
  · subst hq
    rw [if_pos rfl, h]
    simp [eq_comm]
  · rw [if_neg hq]
    simp [hq]

theorem contains_ofList (l : List (K × V)) (q : K) :
    (ofList l).contains q = true ↔ q ∈ l.map Prod.fst := by
  have hfold : ∀ (l : List (K × V)) (m : BTreeMap K V),
      (l.foldl (fun m e => m.insert e.1 e.2) m).contains q = true ↔
        m.contains q = true ∨ q ∈ l.map Prod.fst := by
    intro l
    induction l with
    | nil => simp
    | cons e l ih =>
        intro m
        rw [List.foldl_cons, ih, List.map_cons, List.mem_cons, contains, get?_insert]
        by_cases hq : q = e.1
        · simp [hq]
        · simp [hq, contains]
  rw [ofList, hfold l nil]
  simp [contains]

theorem get?_ofList_of_mem {l : List (K × V)} (hnodup : (l.map Prod.fst).Nodup) {e : K × V}
    (he : e ∈ l) : (ofList l).get? e.1 = some e.2 := by
  have hkeep : ∀ (l : List (K × V)) (m : BTreeMap K V) (q : K), q ∉ l.map Prod.fst →
      (l.foldl (fun m e => m.insert e.1 e.2) m).get? q = m.get? q := by
    intro l
    induction l with
    | nil => exact fun m q _ => rfl
    | cons e l ih =>
        intro m q hq
        rw [List.map_cons, List.mem_cons, not_or] at hq
        rw [List.foldl_cons, ih _ q hq.2, get?_insert, if_neg hq.1]
  have hfold : ∀ (l : List (K × V)) (m : BTreeMap K V), (l.map Prod.fst).Nodup → e ∈ l →
      (l.foldl (fun m e => m.insert e.1 e.2) m).get? e.1 = some e.2 := by
    intro l
    induction l with
    | nil => exact fun m _ he => absurd he List.not_mem_nil
    | cons d l ih =>
        intro m hnodup he
        rw [List.map_cons, List.nodup_cons] at hnodup
        rw [List.foldl_cons]
        rcases List.mem_cons.1 he with rfl | he
        · rw [hkeep l _ _ hnodup.1, get?_insert, if_pos rfl]
        · exact ih _ hnodup.2 he
  exact hfold l nil hnodup he

theorem size_ofList {l : List (K × V)} (hnodup : (l.map Prod.fst).Nodup) :
    (ofList l).size = l.length := by
  have hperm : (ofList l).keys.Perm (l.map Prod.fst) :=
    (List.perm_ext_iff_of_nodup (ofList l).keys_nodup hnodup).2 fun q => by
      rw [mem_keys_iff, contains_ofList]
  rw [← length_keys, hperm.length_eq, List.length_map]
end Lookup

end OMap

/-- An ordered set is a map that carries nothing. -/
abbrev BTreeSet (K : Type u) [LT K] := BTreeMap K Unit
