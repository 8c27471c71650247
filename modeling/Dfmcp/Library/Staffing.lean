import Dfmcp.Library.Augmenting

/-!
# Staffing by families

Positions come in families. The positions of a family take the same workers, and a family may have
room for only so many of them. A set of positions is feasible if each can have a worker of its own
within the room of its family.

Positions are settled one after another: each is seated, or it is stuck, or its family is full. A
position that is refused for such a reason is no loss, whatever comes later.

* `Settled.card_le` — where every position is settled, no feasible set is larger than the seated
  one: the workers of the stuck families all sit at positions of stuck families, and a family that
  is not stuck has all its positions seated or is full;
* `Best.next` — settling in order keeps the greedy basis, which is largest on every initial part.
-/

namespace Matching

/-- **An exhausted search leaves its root stuck**, on the workers of the positions it found. -/
theorem Alternating.stuck {P W : Type} [DecidableEq P] [DecidableEq W] {offers : P → W → Prop}
    {post parents : W → Option P} {root : P} {line : List P} {looked : P → W → Prop}
    (h : Alternating offers post root parents line looked) (hmatch : Matches offers post)
    (hopen : ¬ Seated post root) (hall : ∀ p ∈ line, ∀ w, offers p w → looked p w) :
    Stuck offers post root := by
  by_cases hnone : ∀ w, ¬ offers root w
  · exact ⟨∅, ∅, le_rfl, fun w hw => absurd hw (hnone w), nofun⟩
  push Not at hnone
  obtain ⟨first, _⟩ := hnone
  have : Nonempty W := ⟨first⟩
  have hseated : ∀ q ∈ line.toFinset.erase root, Seated post q := by
    intro q hq
    obtain ⟨hne, hq⟩ := Finset.mem_erase.1 hq
    obtain ⟨w, _, hpost, _⟩ := h.origin q (List.mem_toFinset.1 hq) hne
    exact ⟨w, hpost⟩
  choose! seat hseat using hseated
  have hstaff : ∀ p ∈ line, ∀ w, offers p w → w ∈ (line.toFinset.erase root).image seat := by
    intro p hp w hoffer
    obtain ⟨q, hq, hpost⟩ := h.owned w (h.looked p w (hall p hp w hoffer))
    have hmem : q ∈ line.toFinset.erase root :=
      Finset.mem_erase.2 ⟨fun heq => hopen ⟨w, heq ▸ hpost⟩, List.mem_toFinset.2 hq⟩
    exact Finset.mem_image.2 ⟨q, hmem, hmatch.alone _ _ q (hseat q hmem) hpost⟩
  refine ⟨_, line.toFinset.erase root, Finset.card_image_le, hstaff root h.root_mem, ?_⟩
  intro q hq
  exact ⟨⟨seat q, hseat q hq⟩, hstaff q (List.mem_toFinset.1 (Finset.mem_erase.1 hq).2)⟩

/-- Families of positions, the workers they take, and the room they have. -/
structure Staffing (P W F : Type) where
  family : P → F
  takes : F → W → Prop
  slots : F → Option ℕ

namespace Staffing

variable {P W F : Type} [DecidableEq F] (I : Staffing P W F)

def offers (p : P) (w : W) : Prop := I.takes (I.family p) w

/-- No family has more positions than it has room for. -/
def Within (T : Finset P) : Prop :=
  ∀ f n, I.slots f = some n → ({p ∈ T | I.family p = f}).card ≤ n

/-- Every position can have a worker of its own, within the room of its family. -/
def Feasible (T : Finset P) : Prop :=
  (∃ seat : P → W, Set.InjOn seat T ∧ ∀ p ∈ T, I.offers p (seat p)) ∧ I.Within T

/-- The family of a position has no room for it. -/
def Full (S : Finset P) (p : P) : Prop :=
  ∃ n, I.slots (I.family p) = some n ∧ n ≤ ({q ∈ S | I.family q = I.family p}).card

/-- Every position is seated, or there is a reason that it is not. -/
structure Settled (post : W → Option P) (positions : P → Prop) (S : Finset P) : Prop where
  matching : Matches I.offers post
  seated : ∀ q, q ∈ S ↔ Seated post q
  within : I.Within S
  refused : ∀ p, positions p → p ∉ S → Stuck I.offers post p ∨ I.Full S p

variable {I} {post : W → Option P} {positions : P → Prop} {S T : Finset P}

theorem Within.mono (h : I.Within T) (hsub : S ⊆ T) : I.Within S :=
  fun f n hf => (Finset.card_le_card (Finset.filter_subset_filter _ hsub)).trans (h f n hf)

theorem Feasible.mono (h : I.Feasible T) (hsub : S ⊆ T) : I.Feasible S := by
  obtain ⟨⟨seat, hinj, hoffer⟩, hwithin⟩ := h
  exact ⟨⟨seat, hinj.mono (Finset.coe_subset.2 hsub), fun p hp => hoffer p (hsub hp)⟩,
    hwithin.mono hsub⟩

/-- What is seated is feasible. -/
theorem Settled.feasible [Nonempty W] (h : I.Settled post positions S) : I.Feasible S := by
  choose! seat hseat using fun q hq => (h.seated q).1 hq
  refine ⟨⟨seat, ?_, fun p hp => h.matching.offered _ p (hseat p hp)⟩, h.within⟩
  intro p hp q hq heq
  exact Option.some.inj ((hseat p hp).symm.trans ((congrArg post heq).trans (hseat q hq)))

/-- **No feasible set is larger than a settled one.** -/
theorem Settled.card_le [DecidableEq W] (h : I.Settled post positions S) (hT : ∀ p ∈ T, positions p)
    (hfeasible : I.Feasible T) : T.card ≤ S.card := by
  classical
  obtain ⟨⟨seat, hinj, hoffer⟩, hwithin⟩ := hfeasible
  obtain ⟨among, hclosed, hstuck⟩ := exists_exhausted h.matching
    (fun p (hp : positions p ∧ Stuck I.offers post p) _ => hp.2)
  -- The families that cannot be served beyond the workers who serve them already.
  let spent (p : P) : Prop := ∃ q, among q ∧ I.family q = I.family p
  have hspent : ({p ∈ T | spent p}).card ≤ ({q ∈ S | spent q}).card := by
    have howner : ∀ p ∈ ({p ∈ T | spent p}), ∃ q, post (seat p) = some q ∧ among q := by
      intro p hp
      obtain ⟨hp, r, hr, hfamily⟩ := Finset.mem_filter.1 hp
      refine hclosed r hr (seat p) ?_
      show I.takes (I.family r) (seat p)
      rw [hfamily]
      exact hoffer p hp
    refine Finset.card_le_card_of_injOn (fun p => (post (seat p)).getD p) ?_ ?_
    · intro p hp
      obtain ⟨q, hq, hamong⟩ := howner p hp
      simp only [hq, Option.getD_some]
      exact Finset.mem_filter.2 ⟨(h.seated q).2 ⟨_, hq⟩, q, hamong, rfl⟩
    · intro p hp r hr heq
      obtain ⟨q, hq, _⟩ := howner p hp
      obtain ⟨q', hq', _⟩ := howner r hr
      simp only [hq, hq', Option.getD_some] at heq
      have hseats := h.matching.alone _ _ q hq (heq ▸ hq')
      exact hinj (Finset.mem_filter.1 hp).1 (Finset.mem_filter.1 hr).1 hseats
  have hrest : ({p ∈ T | ¬ spent p}).card ≤ ({q ∈ S | ¬ spent q}).card := by
    rw [Finset.card_eq_sum_card_image I.family {p ∈ T | ¬ spent p}]
    have hbound : ∀ f ∈ ({p ∈ T | ¬ spent p}).image I.family,
        ({p ∈ {p ∈ T | ¬ spent p} | I.family p = f}).card ≤
          ({q ∈ {q ∈ S | ¬ spent q} | I.family q = f}).card := by
      intro f hf
      obtain ⟨r, hr, rfl⟩ := Finset.mem_image.1 hf
      have hfresh := (Finset.mem_filter.1 hr).2
      have hsame : ∀ U : Finset P, ({p ∈ {p ∈ U | ¬ spent p} | I.family p = I.family r}) =
          {p ∈ U | I.family p = I.family r} := by
        intro U
        ext p
        simp only [Finset.mem_filter]
        refine ⟨fun hp => ⟨hp.1.1, hp.2⟩, fun hp => ⟨⟨hp.1, fun hspent => hfresh ?_⟩, hp.2⟩⟩
        obtain ⟨q, hq, hfamily⟩ := hspent
        exact ⟨q, hq, hfamily.trans hp.2⟩
      rw [hsame, hsame]
      by_cases hall : ∀ p ∈ T, I.family p = I.family r → p ∈ S
      · refine Finset.card_le_card fun p hp => ?_
        rw [Finset.mem_filter] at hp ⊢
        exact ⟨hall p hp.1 hp.2, hp.2⟩
      · push Not at hall
        obtain ⟨p, hp, hfamily, hout⟩ := hall
        rcases h.refused p (hT p hp) hout with hp' | ⟨n, hslots, hfull⟩
        · have hamong := hstuck p ⟨hT p hp, hp'⟩ fun hseated => hout ((h.seated p).2 hseated)
          exact absurd ⟨p, hamong, hfamily⟩ hfresh
        · rw [hfamily] at hslots hfull
          exact (hwithin _ n hslots).trans hfull
    refine (Finset.sum_le_sum hbound).trans ?_
    rw [← Finset.card_biUnion]
    · refine Finset.card_le_card fun q hq => ?_
      obtain ⟨f, _, hq⟩ := Finset.mem_biUnion.1 hq
      exact (Finset.mem_filter.1 hq).1
    · intro f _ g _ hne
      rw [Function.onFun, Finset.disjoint_left]
      intro q hq hq'
      exact hne ((Finset.mem_filter.1 hq).2.symm.trans (Finset.mem_filter.1 hq').2)
  rw [← Finset.card_filter_add_card_filter_not (s := T) spent,
    ← Finset.card_filter_add_card_filter_not (s := S) spent]
  exact Nat.add_le_add hspent hrest

/-- **Room for a number of positions is a place of its own for each**, where the places of different
families are different. -/
theorem within_iff {V : Type} [DecidableEq V] [Nonempty V] {places : F → Option (Finset V)}
    (hslots : ∀ f, I.slots f = (places f).map Finset.card)
    (hdisjoint : ∀ f g A B v, places f = some A → places g = some B → v ∈ A → v ∈ B → f = g) :
    I.Within T ↔ ∃ place : P → V,
      (∀ p ∈ T, ∀ A, places (I.family p) = some A → place p ∈ A) ∧
      ∀ p ∈ T, ∀ q ∈ T, places (I.family p) ≠ none → places (I.family q) ≠ none →
        place p = place q → p = q := by
  constructor
  · intro hwithin
    have hfamily : ∀ f A, places f = some A →
        ∃ place : P → V, ∀ p ∈ ({p ∈ T | I.family p = f}), place p ∈ A ∧
          ∀ q ∈ ({p ∈ T | I.family p = f}), place p = place q → p = q := by
      intro f A hA
      have hcard : Fintype.card {p // p ∈ ({p ∈ T | I.family p = f})} ≤
          Fintype.card {v // v ∈ A} := by
        rw [Fintype.card_coe, Fintype.card_coe]
        exact hwithin f A.card (by rw [hslots, hA]; rfl)
      obtain ⟨e⟩ := Function.Embedding.nonempty_of_card_le hcard
      classical
      refine ⟨fun p => if hp : p ∈ ({p ∈ T | I.family p = f}) then (e ⟨p, hp⟩).val
        else Classical.arbitrary V, fun p hp => ?_⟩
      dsimp only
      rw [dif_pos hp]
      refine ⟨(e ⟨p, hp⟩).property, fun q hq heq => ?_⟩
      rw [dif_pos hq] at heq
      exact congrArg Subtype.val (e.injective (Subtype.val_injective heq))
    choose! place hplace using hfamily
    have hin : ∀ p ∈ T, p ∈ ({q ∈ T | I.family q = I.family p}) :=
      fun p hp => Finset.mem_filter.2 ⟨hp, rfl⟩
    refine ⟨fun p => place (I.family p) ((places (I.family p)).getD ∅) p, ?_, ?_⟩
    · intro p hp A hA
      dsimp only
      rw [hA, Option.getD_some]
      exact (hplace _ A hA p (hin p hp)).1
    · intro p hp q hq hpn hqn heq
      obtain ⟨A, hA⟩ := Option.ne_none_iff_exists'.1 hpn
      obtain ⟨B, hB⟩ := Option.ne_none_iff_exists'.1 hqn
      dsimp only at heq
      rw [hA, hB, Option.getD_some, Option.getD_some] at heq
      have hpA := (hplace _ A hA p (hin p hp)).1
      have hqB := (hplace _ B hB q (hin q hq)).1
      have hsame : I.family p = I.family q := hdisjoint _ _ A B _ hA hB hpA (heq ▸ hqB)
      obtain rfl : A = B := Option.some.inj ((hsame ▸ hA).symm.trans hB)
      rw [← hsame] at heq
      exact (hplace _ A hA p (hin p hp)).2 q (hsame ▸ hin q hq) heq
  · intro h f n hf
    obtain ⟨place, hmem, hinj⟩ := h
    rw [hslots] at hf
    obtain ⟨A, hA, rfl⟩ := Option.map_eq_some_iff.1 hf
    refine Finset.card_le_card_of_injOn place ?_ ?_
    · intro p hp
      obtain ⟨hp, hpf⟩ := Finset.mem_filter.1 hp
      exact hmem p hp A (by rw [hpf, hA])
    · intro p hp q hq heq
      obtain ⟨hp, hpf⟩ := Finset.mem_filter.1 hp
      obtain ⟨hq, hqf⟩ := Finset.mem_filter.1 hq
      exact hinj p hp q hq (by rw [hpf, hA]; exact Option.some_ne_none A)
        (by rw [hqf, hA]; exact Option.some_ne_none A) heq

/-! ## Settling in order -/

section Order

variable {W F : Type} [DecidableEq F] {I : Staffing ℕ W F} {post : W → Option ℕ} {n : ℕ}
  {S S' : Finset ℕ}

/-- The greedy basis of the first `n` positions: it takes a position exactly when that is feasible
beside the earlier ones it took, and on every initial part it is as large as any feasible set. -/
structure Best (I : Staffing ℕ W F) (n : ℕ) (S : Finset ℕ) : Prop where
  subset : S ⊆ Finset.range n
  feasible : I.Feasible S
  basis : ∀ p < n, p ∈ S ↔ I.Feasible (insert p {q ∈ S | q < p})
  initial : ∀ T ⊆ Finset.range n, I.Feasible T → ∀ m,
    ({q ∈ T | q < m}).card ≤ ({q ∈ S | q < m}).card

/-- No feasible set is larger than the greedy basis. -/
theorem Best.card_le (h : I.Best n S) {T : Finset ℕ} (hT : T ⊆ Finset.range n)
    (hfeasible : I.Feasible T) : T.card ≤ S.card := by
  have hall : ∀ U ⊆ Finset.range n, ({q ∈ U | q < n}) = U := fun U hU =>
    Finset.filter_true_of_mem fun q hq => Finset.mem_range.1 (hU hq)
  have hle := h.initial T hT hfeasible n
  rwa [hall T hT, hall S h.subset] at hle

theorem Best.empty [Nonempty W] : I.Best 0 ∅ where
  subset := Finset.empty_subset _
  feasible := by
    refine ⟨⟨fun _ => Classical.arbitrary W, by simp, by simp⟩, fun f n _ => by simp⟩
  basis := fun p hp => absurd hp (Nat.not_lt_zero p)
  initial := fun T hT _ m => by
    have hempty : T = ∅ := Finset.subset_empty.1 hT
    rw [hempty]

/-- **One more position.** Seated or refused for a reason, it keeps the greedy basis. -/
theorem Best.next [DecidableEq W] [Nonempty W] (h : I.Best n S)
    (hnext : S' = S ∨ S' = insert n S) (hsettled : I.Settled post (· < n + 1) S') :
    I.Best (n + 1) S' := by
  have hsub : S' ⊆ Finset.range (n + 1) := by
    have hold : S ⊆ Finset.range (n + 1) :=
      h.subset.trans (Finset.range_subset_range.2 (Nat.le_succ n))
    rcases hnext with rfl | rfl
    · exact hold
    · exact Finset.insert_subset (Finset.self_mem_range_succ n) hold
  have hearlier : ∀ q < n, q ∈ S' ↔ q ∈ S := by
    intro q hq
    rcases hnext with rfl | rfl
    · rfl
    · rw [Finset.mem_insert]
      exact or_iff_right hq.ne
  have hinitial : ∀ p ≤ n, ({q ∈ S' | q < p}) = {q ∈ S | q < p} := by
    intro p hp
    ext q
    rw [Finset.mem_filter, Finset.mem_filter]
    exact and_congr_left fun hq => hearlier q (hq.trans_le hp)
  have hbefore : ({q ∈ S | q < n}) = S :=
    Finset.filter_true_of_mem fun q hq => Finset.mem_range.1 (h.subset hq)
  have hlargest : ∀ T ⊆ Finset.range (n + 1), I.Feasible T → T.card ≤ S'.card :=
    fun T hT => hsettled.card_le fun p hp => Finset.mem_range.1 (hT hp)
  refine ⟨hsub, hsettled.feasible, ?_, ?_⟩
  · intro p hp
    rw [hinitial p (Nat.lt_succ_iff.1 hp)]
    rcases Nat.lt_succ_iff_lt_or_eq.1 hp with hp | rfl
    · rw [hearlier p hp]
      exact h.basis p hp
    · rw [hbefore]
      have hfresh : p ∉ S := fun hmem => lt_irrefl p (Finset.mem_range.1 (h.subset hmem))
      constructor
      · intro hmem
        rcases hnext with rfl | rfl
        · exact absurd hmem hfresh
        · exact hsettled.feasible
      · intro hfeasible
        have hsubset : insert p S ⊆ Finset.range (p + 1) :=
          Finset.insert_subset (Finset.self_mem_range_succ p)
            (h.subset.trans (Finset.range_subset_range.2 (Nat.le_succ p)))
        have hle := hlargest _ hsubset hfeasible
        rw [Finset.card_insert_of_notMem hfresh] at hle
        rcases hnext with rfl | rfl
        · omega
        · exact Finset.mem_insert_self p S
  · intro T hT hfeasible m
    by_cases hm : m ≤ n
    · have hsmall : ({q ∈ T | q < n}) ⊆ Finset.range n := fun q hq =>
        Finset.mem_range.2 (Finset.mem_filter.1 hq).2
      have hle := h.initial _ hsmall (hfeasible.mono (Finset.filter_subset _ T)) m
      have hsame : ({q ∈ {q ∈ T | q < n} | q < m}) = {q ∈ T | q < m} := by
        ext q
        simp only [Finset.mem_filter]
        exact ⟨fun hq => ⟨hq.1.1, hq.2⟩, fun hq => ⟨⟨hq.1, hq.2.trans_le hm⟩, hq.2⟩⟩
      rw [hinitial m hm]
      rwa [hsame] at hle
    · have hall : ∀ U ⊆ Finset.range (n + 1), ({q ∈ U | q < m}) = U := fun U hU =>
        Finset.filter_true_of_mem fun q hq => by
          have := Finset.mem_range.1 (hU hq)
          omega
      rw [hall T hT, hall S' hsub]
      exact hlargest T hT hfeasible

end Order

end Staffing

end Matching
