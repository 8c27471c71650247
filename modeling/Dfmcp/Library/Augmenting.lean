import Dfmcp.Library.Matching

/-!
# When no search can succeed

A search for a position that fails leaves it `Stuck`: its workers belong to positions that would
take nobody else. It stays so as long as no position is vacated, and once every open position is
stuck the positions reached from the open ones take no one who is free (`Exhausted`).

* `Stuck.mono` — seating others does not free a stuck position;
* `exists_exhausted` — what is left when no search can succeed.
-/

namespace Matching

variable {P W : Type} {offers : P → W → Prop} {post post' : W → Option P} {p : P} {w : W}

/-- A position that takes only workers of positions that take no others. -/
def Stuck (offers : P → W → Prop) (post : W → Option P) (p : P) : Prop :=
  ∃ (staff : Finset W) (T : Finset P), staff.card ≤ T.card ∧ (∀ w, offers p w → w ∈ staff) ∧
    ∀ q ∈ T, Seated post q ∧ ∀ w, offers q w → w ∈ staff

theorem Stuck.mono (h : Stuck offers post p) (hseated : ∀ q, Seated post q → Seated post' q) :
    Stuck offers post' p := by
  obtain ⟨staff, T, hcard, hp, hT⟩ := h
  exact ⟨staff, T, hcard, hp, fun q hq => ⟨hseated q (hT q hq).1, (hT q hq).2⟩⟩

/-- Positions that take no one who is free, nor anyone of another position. -/
def Exhausted (offers : P → W → Prop) (post : W → Option P) (among : P → Prop) : Prop :=
  ∀ p, among p → ∀ w, offers p w → ∃ q, post w = some q ∧ among q

/-- The workers of a stuck position belong to the positions that make it stuck. -/
theorem owned_of_card [DecidableEq W] (hmatch : Matches offers post) {staff : Finset W}
    {T : Finset P} (hcard : staff.card ≤ T.card)
    (hT : ∀ q ∈ T, Seated post q ∧ ∀ w, offers q w → w ∈ staff) (hw : w ∈ staff) :
    ∃ q ∈ T, post w = some q := by
  classical
  have : Nonempty W := ⟨w⟩
  choose! seat hseat using fun q hq => (hT q hq).1
  have hsub : T.image seat ⊆ staff := by
    intro x hx
    obtain ⟨q, hq, rfl⟩ := Finset.mem_image.1 hx
    exact (hT q hq).2 _ (hmatch.offered _ q (hseat q hq))
  have hinj : Set.InjOn seat T := by
    intro q hq r hr heq
    exact Option.some.inj ((hseat q hq).symm.trans ((congrArg post heq).trans (hseat r hr)))
  have hall : T.image seat = staff :=
    Finset.eq_of_subset_of_card_le hsub (by rwa [Finset.card_image_of_injOn hinj])
  rw [← hall] at hw
  obtain ⟨q, hq, rfl⟩ := Finset.mem_image.1 hw
  exact ⟨q, hq, hseat q hq⟩

/-- **When every open position is stuck no search can succeed.** -/
theorem exists_exhausted [DecidableEq W] (hmatch : Matches offers post) {positions : P → Prop}
    (hstuck : ∀ p, positions p → ¬ Seated post p → Stuck offers post p) :
    ∃ among, Exhausted offers post among ∧ ∀ p, positions p → ¬ Seated post p → among p := by
  refine ⟨fun q => (positions q ∧ ¬ Seated post q) ∨ ∃ (staff : Finset W) (T : Finset P), q ∈ T ∧
    staff.card ≤ T.card ∧ ∀ r ∈ T, Seated post r ∧ ∀ w, offers r w → w ∈ staff, ?_,
    fun p hp hopen => .inl ⟨hp, hopen⟩⟩
  intro p hp w hw
  have hreach : ∃ (staff : Finset W) (T : Finset P), w ∈ staff ∧ staff.card ≤ T.card ∧
      ∀ r ∈ T, Seated post r ∧ ∀ w, offers r w → w ∈ staff := by
    rcases hp with ⟨hp, hopen⟩ | ⟨staff, T, hpT, hcard, hT⟩
    · obtain ⟨staff, T, hcard, hall, hT⟩ := hstuck p hp hopen
      exact ⟨staff, T, hall w hw, hcard, hT⟩
    · exact ⟨staff, T, (hT p hpT).2 w hw, hcard, hT⟩
  obtain ⟨staff, T, hmem, hcard, hT⟩ := hreach
  obtain ⟨q, hq, hpost⟩ := owned_of_card hmatch hcard hT hmem
  exact ⟨q, hpost, .inr ⟨staff, T, hq, hcard, hT⟩⟩

end Matching
