import Dfmcp.World.NormalProof

/-!
# The canonical bytes of a predicate

Two predicates that say the same thing in another order, more than once, or with a connective
nested in itself should have the same canonical bytes. The children of a connective are sorted by
their encodings and then adjacent repeats are dropped, but the encoding of a kind is its name, and
a custom kind may bear the name of a built-in one: such children are different predicates with one
encoding, their order is the order they were given in, and repeats need not become adjacent.

* `Variant` — one rearrangement, duplication or nesting, anywhere in a predicate;
* `Clean` — no connective collects two different children with one encoding;
* `Clean.variant` — a variant of a clean predicate is clean and has its normal form;
* `exists_longer` — a predicate that is not clean has variants with canonical bytes as long as one
  likes;
* `canonicalBytes_variant_iff` — so exactly the clean predicates have the bytes of their variants.
-/

namespace Dfmcp

open Machine

/-- Part of a list survives the dropping of repeats, if it has none itself. -/
theorem sublist_dedup {α : Type} [DecidableEq α] {kept l : List α} (h : kept.Sublist l)
    (hkept : kept.IsChain (· ≠ ·)) : kept.Sublist (dedup l) := by
  fun_induction dedup l generalizing kept with
  | case1 b rest ih =>
      cases h with
      | cons _ h => exact ih h hkept
      | @cons_cons kept _ _ h =>
          cases h with
          | cons _ h => exact ih (h.cons_cons b) hkept
          | cons_cons _ _ => exact absurd rfl (List.isChain_cons_cons.1 hkept).1
  | case2 a b rest _ ih =>
      cases h with
      | cons _ h => exact (ih h hkept).cons a
      | cons_cons _ h => exact (ih h hkept.of_cons).cons_cons a
  | case3 l _ => exact h

namespace Predicate

/-- One rearrangement, duplication or nesting in a predicate. -/
inductive Variant : Predicate → Predicate → Prop
  | permute (isAll : Bool) {ps qs : List Predicate} (h : ps.Perm qs) :
      Variant (connect isAll ps) (connect isAll qs)
  | duplicate (isAll : Bool) (before : List Predicate) (p : Predicate) (after : List Predicate) :
      Variant (connect isAll (before ++ p :: after)) (connect isAll (before ++ p :: p :: after))
  | nest (isAll : Bool) (before inner after : List Predicate) :
      Variant (connect isAll (before ++ inner ++ after))
        (connect isAll (before ++ connect isAll inner :: after))
  | child (isAll : Bool) (before : List Predicate) {p q : Predicate} (after : List Predicate)
      (h : Variant p q) :
      Variant (connect isAll (before ++ p :: after)) (connect isAll (before ++ q :: after))
  | not {p q : Predicate} (h : Variant p q) : Variant (.not p) (.not q)

/-- A child decides the connective. -/
def Decided (isAll : Bool) (ps : List Predicate) : Prop :=
  ∃ p ∈ ps, p.normalized = absorbing isAll

/-- No two different children have one encoding. -/
def Distinguished (children : List Predicate) : Prop :=
  ∀ a ∈ children, ∀ b ∈ children, a.encode = b.encode → a = b

/-- Every connective that is not decided has clean children and collects from them no two
different ones with one encoding. -/
inductive Clean : Predicate → Prop
  | leaf {p : Predicate} (h : p.IsLeaf) : Clean p
  | not {p : Predicate} (h : Clean p) : Clean (.not p)
  | decided {isAll : Bool} {ps : List Predicate} (h : Decided isAll ps) :
      Clean (connect isAll ps)
  | gathered {isAll : Bool} {ps : List Predicate} (hps : ∀ p ∈ ps, Clean p)
      (h : Distinguished (ps.flatMap (members isAll))) : Clean (connect isAll ps)

theorem connect_inj {isAll isAll' : Bool} {ps qs : List Predicate}
    (h : connect isAll ps = connect isAll' qs) : isAll = isAll' ∧ ps = qs := by
  cases isAll <;> cases isAll' <;> cases h <;> exact ⟨rfl, rfl⟩

theorem clean_connect_iff {isAll : Bool} {ps : List Predicate} :
    Clean (connect isAll ps) ↔
      Decided isAll ps ∨ (∀ p ∈ ps, Clean p) ∧ Distinguished (ps.flatMap (members isAll)) := by
  constructor
  · intro h
    generalize hq : connect isAll ps = q at h
    cases h with
    | leaf hleaf =>
        subst hq
        cases isAll <;> exact hleaf.elim
    | not _ => cases isAll <;> cases hq
    | decided h =>
        obtain ⟨rfl, rfl⟩ := connect_inj hq
        exact .inl h
    | gathered hps h =>
        obtain ⟨rfl, rfl⟩ := connect_inj hq
        exact .inr ⟨hps, h⟩
  · intro h
    rcases h with h | ⟨hps, h⟩
    · exact .decided h
    · exact .gathered hps h

theorem clean_not_iff {p : Predicate} : Clean (.not p) ↔ Clean p := by
  constructor
  · intro h
    generalize hq : Predicate.not p = q at h
    cases h with
    | leaf hleaf =>
        subst hq
        exact hleaf.elim
    | not hp =>
        cases hq
        exact hp
    | @decided isAll _ _ => cases isAll <;> cases hq
    | @gathered isAll _ _ _ => cases isAll <;> cases hq
  · exact .not

/-! ## Clean predicates -/

theorem pairwise_arrange (children : List Predicate) :
    (arrange children).Pairwise fun a b => a.encode ≤ b.encode :=
  (pairwise_insertionSort_encode children).sublist (dedup_sublist _)

theorem eq_of_encode {children : List Predicate} (h : Distinguished children) {a b : Predicate}
    (ha : a ∈ children) (hb : b ∈ children) (hab : a.encode ≤ b.encode)
    (hba : b.encode ≤ a.encode) : a = b :=
  h a ha b hb (List.le_antisymm hab hba)

/-- Sorting children that are distinguished brings all repeats together. -/
theorem nodup_of_sorted {children : List Predicate} (h : Distinguished children)
    (hsorted : children.Pairwise fun a b => a.encode ≤ b.encode)
    (hchain : children.IsChain (· ≠ ·)) : children.Nodup := by
  induction children with
  | nil => exact List.nodup_nil
  | cons a rest ih =>
      obtain ⟨hfirst, hrest⟩ := List.pairwise_cons.1 hsorted
      have hdistinguished : Distinguished rest := fun x hx y hy =>
        h x (List.mem_cons_of_mem a hx) y (List.mem_cons_of_mem a hy)
      refine List.nodup_cons.2 ⟨fun ha => ?_, ih hdistinguished hrest hchain.of_cons⟩
      cases rest with
      | nil => cases ha
      | cons b rest =>
          obtain ⟨hne, _⟩ := List.isChain_cons_cons.1 hchain
          rcases List.mem_cons.1 ha with heq | ha
          · exact hne heq
          · have hba : b.encode ≤ a.encode := (List.pairwise_cons.1 hrest).1 a ha
            have hab : a.encode ≤ b.encode := hfirst b List.mem_cons_self
            exact hne (eq_of_encode h List.mem_cons_self
              (List.mem_cons_of_mem a List.mem_cons_self) hab hba)

theorem nodup_arrange {children : List Predicate} (h : Distinguished children) :
    (arrange children).Nodup :=
  nodup_of_sorted (fun a ha b hb => h a ((mem_arrange _).1 ha) b ((mem_arrange _).1 hb))
    (pairwise_arrange children) (isChain_dedup _)

/-- What is arranged depends on nothing but which children there are. -/
theorem arrange_congr {children others : List Predicate} (h : Distinguished children)
    (hsame : ∀ p, p ∈ children ↔ p ∈ others) : arrange children = arrange others := by
  have hothers : Distinguished others := fun a ha b hb =>
    h a ((hsame a).2 ha) b ((hsame b).2 hb)
  have hmem : ∀ p, p ∈ arrange children ↔ p ∈ arrange others := fun p => by
    rw [mem_arrange, mem_arrange, hsame]
  have hperm : (arrange children).Perm (arrange others) :=
    (List.perm_ext_iff_of_nodup (nodup_arrange h) (nodup_arrange hothers)).2 hmem
  refine hperm.eq_of_pairwise (fun a b ha hb hab hba => ?_) (pairwise_arrange children)
    (pairwise_arrange others)
  rw [mem_arrange] at ha hb
  exact eq_of_encode h ha ((hsame b).2 hb) hab hba

theorem ofChildren_congr (isAll : Bool) {children others : List Predicate}
    (h : arrange children = arrange others) :
    ofChildren isAll children = ofChildren isAll others := by
  have harranged : ∀ l : List Predicate,
      (l.insertionSort fun a b => a.encode ≤ b.encode).eraseReps = arrange l :=
    fun l => eraseReps_eq_dedup _
  unfold ofChildren
  rw [harranged, harranged, h]

theorem normalized_decided {isAll : Bool} {ps : List Predicate} (h : Decided isAll ps) :
    (connect isAll ps).normalized = absorbing isAll := by
  rw [normalized_connect]
  exact if_pos h

theorem normalized_gathered {isAll : Bool} {ps : List Predicate} (h : ¬ Decided isAll ps) :
    (connect isAll ps).normalized = ofChildren isAll (ps.flatMap (members isAll)) := by
  rw [normalized_connect]
  exact if_neg h

/-- Connectives whose children collect the same have one normal form. -/
theorem normalized_connect_congr {isAll : Bool} {ps qs : List Predicate}
    (hdecided : Decided isAll ps ↔ Decided isAll qs)
    (h : ¬ Decided isAll ps → Distinguished (ps.flatMap (members isAll)))
    (hsame : ¬ Decided isAll ps →
      ∀ p, p ∈ ps.flatMap (members isAll) ↔ p ∈ qs.flatMap (members isAll)) :
    (connect isAll qs).normalized = (connect isAll ps).normalized := by
  by_cases hps : Decided isAll ps
  · rw [normalized_decided hps, normalized_decided (hdecided.1 hps)]
  · rw [normalized_gathered hps, normalized_gathered fun hqs => hps (hdecided.2 hqs)]
    exact (ofChildren_congr isAll (arrange_congr (h hps) (hsame hps))).symm

/-- A member of a connective is a child of it that is not flattened. -/
theorem childrenOf_member {isAll : Bool} {p child : Predicate} (h : child ∈ members isAll p) :
    childrenOf isAll child = some [child] := by
  cases hchildren : childrenOf isAll p.normalized with
  | none =>
      rw [members, hchildren] at h
      cases h
  | some children =>
      rw [members, hchildren] at h
      exact (p.normal_normalized.childrenOf hchildren child h).2

/-- A connective nested in itself adds what its children do. -/
theorem mem_members_connect {isAll : Bool} {inner : List Predicate}
    (h : ¬ Decided isAll inner) (p : Predicate) :
    p ∈ members isAll (connect isAll inner) ↔ p ∈ inner.flatMap (members isAll) := by
  have hmembers : members isAll (connect isAll inner) =
      (childrenOf isAll (ofChildren isAll (inner.flatMap (members isAll)))).getD [] := by
    rw [members, normalized_gathered h]
  rw [hmembers, ← mem_arrange (inner.flatMap (members isAll))]
  rcases ofChildren_cases isAll (inner.flatMap (members isAll)) with
    ⟨hnil, heq⟩ | ⟨child, hone, heq⟩ | ⟨_, heq⟩
  · rw [heq, hnil]
    cases isAll <;> exact Iff.rfl
  · have hchild : child ∈ inner.flatMap (members isAll) := by
      rw [← mem_arrange, hone]
      exact List.mem_singleton_self child
    obtain ⟨q, _, hq⟩ := List.mem_flatMap.1 hchild
    rw [heq, hone, childrenOf_member hq]
    exact Iff.rfl
  · rw [heq]
    cases isAll <;> exact Iff.rfl

/-- A constant. -/
def Constant (p : Predicate) : Prop := p = .true ∨ p = .false

theorem constant_iff {p : Predicate} (isAll : Bool) :
    p.Constant ↔ p = neutral isAll ∨ p = absorbing isAll := by
  cases isAll
  · exact or_comm
  · exact Iff.rfl

/-- What a connective keeps is not constant. -/
theorem not_constant_of_whole {isAll : Bool} {p : Predicate}
    (h : childrenOf isAll p = some [p]) : ¬ p.Constant := by
  intro hconstant
  rcases hconstant with rfl | rfl <;> cases isAll <;> cases h

/-- A connective that is not decided is constant only without children. -/
theorem nil_of_constant {isAll : Bool} {ps : List Predicate} (h : ¬ Decided isAll ps)
    (hconstant : (connect isAll ps).normalized.Constant) :
    ps.flatMap (members isAll) = [] ∧ (connect isAll ps).normalized = neutral isAll := by
  rw [normalized_gathered h] at hconstant ⊢
  rcases ofChildren_cases isAll (ps.flatMap (members isAll)) with
    ⟨hnil, heq⟩ | ⟨child, hone, heq⟩ | ⟨_, heq⟩
  · refine ⟨List.eq_nil_iff_forall_not_mem.2 fun p hp => ?_, heq⟩
    rw [← mem_arrange, hnil] at hp
    cases hp
  · have hchild : child ∈ ps.flatMap (members isAll) := by
      rw [← mem_arrange, hone]
      exact List.mem_singleton_self child
    obtain ⟨p, _, hp⟩ := List.mem_flatMap.1 hchild
    rw [heq] at hconstant
    exact absurd hconstant (not_constant_of_whole (childrenOf_member hp))
  · rw [heq] at hconstant
    rcases hconstant with hconstant | hconstant <;> cases isAll <;> cases hconstant

theorem connect_absorbing_iff {isAll : Bool} {ps : List Predicate} :
    (connect isAll ps).normalized = absorbing isAll ↔ Decided isAll ps := by
  refine ⟨fun habsorbing => ?_, normalized_decided⟩
  by_contra h
  have hneutral := (nil_of_constant h ((constant_iff isAll).2 (.inr habsorbing))).2
  rw [habsorbing] at hneutral
  cases isAll <;> cases hneutral

/-- A child that adds nothing is constant. -/
theorem constant_of_members {isAll : Bool} {p : Predicate} (h : members isAll p = []) :
    p.normalized.Constant := by
  cases hchildren : childrenOf isAll p.normalized with
  | none => exact (constant_iff isAll).2 (.inr (childrenOf_eq_none.1 hchildren))
  | some children =>
      rw [members, hchildren, Option.getD_some] at h
      subst h
      rcases childrenOf_cases hchildren with hconnect | ⟨hneutral, _⟩ | ⟨hone, _⟩
      · have hself := p.normal_normalized.normalized_eq
        rw [hconnect] at hself ⊢
        cases isAll <;> cases hself
      · exact (constant_iff isAll).2 (.inl hneutral)
      · cases hone

/-- A predicate that normalizes to a constant is clean. -/
theorem clean_of_constant {p : Predicate} (h : p.normalized.Constant) : Clean p := by
  induction p using induct_connect with
  | hconnect isAll ps ih =>
      by_cases hdecided : Decided isAll ps
      · exact .decided hdecided
      · have hnil := (nil_of_constant hdecided h).1
        refine .gathered (fun p hp => ih p hp (@constant_of_members isAll _ ?_)) ?_
        · exact List.flatMap_eq_nil_iff.1 hnil p hp
        · rw [hnil]
          exact fun a ha => nomatch ha
  | hnot p ih =>
      have hnormal := p.normal_normalized
      rw [normalized_not] at h
      generalize p.normalized = q at h hnormal ih
      refine .not (ih ?_)
      cases q with
      | true => exact .inl rfl
      | false => exact .inr rfl
      | not q =>
          have hself := hnormal.normalized_eq
          rw [normalized_not] at hself
          rcases h with h | h <;> (simp only [negate] at h; subst h; cases hself)
      | _ => rcases h with h | h <;> cases h
  | hleaf p hp => exact .leaf hp

theorem decided_nest_iff {isAll : Bool} {before inner after : List Predicate} :
    Decided isAll (before ++ connect isAll inner :: after) ↔
      Decided isAll (before ++ inner ++ after) := by
  simp only [Decided, List.mem_append, List.mem_cons, or_and_right, exists_or, exists_eq_left,
    connect_absorbing_iff, or_assoc]

/-- Connectives that are decided together and otherwise collect the same. -/
theorem Clean.connect_congr {isAll : Bool} {ps qs : List Predicate}
    (hp : Clean (connect isAll ps)) (hdecided : Decided isAll ps ↔ Decided isAll qs)
    (hclean : (∀ p ∈ ps, Clean p) → Distinguished (ps.flatMap (members isAll)) →
      ¬ Decided isAll ps → ∀ q ∈ qs, Clean q)
    (hsame : ¬ Decided isAll ps →
      ∀ p, p ∈ ps.flatMap (members isAll) ↔ p ∈ qs.flatMap (members isAll)) :
    Clean (connect isAll qs) ∧ (connect isAll qs).normalized = (connect isAll ps).normalized := by
  rcases clean_connect_iff.1 hp with hps | ⟨hps, hdistinguished⟩
  · refine ⟨.decided (hdecided.1 hps), ?_⟩
    rw [normalized_decided hps, normalized_decided (hdecided.1 hps)]
  · by_cases h : Decided isAll ps
    · refine ⟨.decided (hdecided.1 h), ?_⟩
      rw [normalized_decided h, normalized_decided (hdecided.1 h)]
    · refine ⟨.gathered (hclean hps hdistinguished h) fun a ha b hb => ?_,
        normalized_connect_congr hdecided (fun _ => hdistinguished) hsame⟩
      exact hdistinguished a ((hsame h a).2 ha) b ((hsame h b).2 hb)

/-- **A variant of a clean predicate is clean and has its normal form.** -/
theorem Clean.variant {p q : Predicate} (hp : Clean p) (h : Variant p q) :
    Clean q ∧ q.normalized = p.normalized := by
  induction h with
  | permute isAll h =>
      apply hp.connect_congr
      · simp only [Decided, h.mem_iff]
      · exact fun hps _ _ q hq => hps q (h.mem_iff.2 hq)
      · intro _ p
        simp only [List.mem_flatMap, h.mem_iff]
  | duplicate isAll before p after =>
      apply hp.connect_congr
      · simp [Decided]
      · intro hps _ _ q hq
        apply hps q
        simpa using hq
      · intro _ q
        simp
  | nest isAll before inner after =>
      apply hp.connect_congr decided_nest_iff.symm
      · intro hps hdistinguished hdecided q hq
        have hmem : ∀ r ∈ inner, r ∈ before ++ inner ++ after := fun r hr => by simp [hr]
        rcases List.mem_append.1 hq with hq | hq
        · exact hps q (by simp [hq])
        · rcases List.mem_cons.1 hq with rfl | hq
          · refine .gathered (fun r hr => hps r (hmem r hr)) fun a ha b hb => ?_
            have hgather : ∀ r ∈ inner.flatMap (members isAll),
                r ∈ (before ++ inner ++ after).flatMap (members isAll) := by
              intro r hr
              obtain ⟨c, hc, hr⟩ := List.mem_flatMap.1 hr
              exact List.mem_flatMap.2 ⟨c, hmem c hc, hr⟩
            exact hdistinguished a (hgather a ha) b (hgather b hb)
          · exact hps q (by simp [hq])
      · intro hdecided p
        have hinner : ¬ Decided isAll inner := fun ⟨r, hr, habsorbing⟩ =>
          hdecided ⟨r, by simp [hr], habsorbing⟩
        simp only [List.flatMap_append, List.flatMap_cons, List.mem_append,
          mem_members_connect hinner, or_assoc]
  | @child isAll before p q after h ih =>
      by_cases hclean : Clean p
      · obtain ⟨hq, heq⟩ := ih hclean
        have hmembers : members isAll q = members isAll p := by rw [members, members, heq]
        apply hp.connect_congr
        · simp only [Decided, List.mem_append, List.mem_cons, or_and_right, exists_or,
            exists_eq_left, heq]
        · intro hps _ _ r hr
          rcases List.mem_append.1 hr with hr | hr
          · exact hps r (List.mem_append_left _ hr)
          · rcases List.mem_cons.1 hr with rfl | hr
            · exact hq
            · exact hps r (List.mem_append_right _ (List.mem_cons_of_mem _ hr))
        · intro _ r
          simp only [List.flatMap_append, List.flatMap_cons, hmembers]
      · rcases clean_connect_iff.1 hp with ⟨r, hr, habsorbing⟩ | ⟨hps, _⟩
        · have hne : r ≠ p := fun heq => hclean (clean_of_constant
            ((constant_iff isAll).2 (.inr (heq ▸ habsorbing))))
          have hdecided : Decided isAll (before ++ q :: after) := by
            refine ⟨r, ?_, habsorbing⟩
            rcases List.mem_append.1 hr with hr | hr
            · exact List.mem_append_left _ hr
            · rcases List.mem_cons.1 hr with heq | hr
              · exact absurd heq hne
              · exact List.mem_append_right _ (List.mem_cons_of_mem _ hr)
          refine ⟨.decided hdecided, ?_⟩
          rw [normalized_decided hdecided, normalized_decided ⟨r, hr, habsorbing⟩]
        · exact absurd (hps p (List.mem_append_right _ List.mem_cons_self)) hclean
  | not h ih =>
      obtain ⟨hclean, heq⟩ := ih (clean_not_iff.1 hp)
      exact ⟨.not hclean, by rw [normalized_not, normalized_not, heq]⟩

/-! ## Predicates that are not clean -/

theorem encodeEach_eq (ps : List Predicate) : encodeEach ps = ps.flatMap encode := by
  induction ps with
  | nil => rfl
  | cons p ps ih => rw [encodeEach, ih, List.flatMap_cons]

theorem length_encode_connect (isAll : Bool) (ps : List Predicate) :
    (connect isAll ps).encode.length = (ps.map fun p => p.encode.length).sum + 9 := by
  have hlength : (encodeEach ps).length = (ps.map fun p => p.encode.length).sum := by
    rw [encodeEach_eq, List.length_flatMap]
  have hcount : (putLen ps.length).length = 8 := length_beBytes 8 _
  cases isAll with
  | true =>
      show (Predicate.all ps).encode.length = _
      rw [encode, List.length_cons, List.length_append, hlength, hcount]
      omega
  | false =>
      show (Predicate.any ps).encode.length = _
      rw [encode, List.length_cons, List.length_append, hlength, hcount]
      omega

theorem one_le_length_encode (p : Predicate) : 1 ≤ p.encode.length := by
  cases p <;> simp only [encode, List.length_cons] <;> omega

/-- The members of a connective show in its canonical bytes. -/
theorem sum_arrange_le (isAll : Bool) (children : List Predicate) :
    ((arrange children).map fun p => p.encode.length).sum ≤
      (ofChildren isAll children).encode.length := by
  rcases ofChildren_cases isAll children with ⟨hnil, _⟩ | ⟨child, hone, heq⟩ | ⟨_, heq⟩
  · rw [hnil]
    exact Nat.zero_le _
  · rw [hone, heq, List.map_singleton, List.sum_singleton]
  · rw [heq, length_encode_connect]
    exact Nat.le_add_right _ 9

/-- Part of what is collected shows in the canonical bytes, if it is arranged already. -/
theorem sum_sublist_le (isAll : Bool) {kept children : List Predicate}
    (h : kept.Sublist children) (hsorted : kept.Pairwise fun a b => a.encode ≤ b.encode)
    (hchain : kept.IsChain (· ≠ ·)) :
    (kept.map fun p => p.encode.length).sum ≤ (ofChildren isAll children).encode.length := by
  have hsub : kept.Sublist (arrange children) :=
    sublist_dedup (List.sublist_insertionSort hsorted h) hchain
  exact (List.Sublist.sum_le_sum (hsub.map _) fun _ _ => Nat.zero_le _).trans
    (sum_arrange_le isAll children)

theorem length_canonicalBytes_le (isAll : Bool) (p : Predicate) :
    p.canonicalBytes.length ≤ ((members isAll p).map fun p => p.encode.length).sum + 9 := by
  have hconstant : ∀ isAll, (neutral isAll).encode.length = 1 ∧
      (absorbing isAll).encode.length = 1 := by
    intro isAll
    cases isAll <;> exact ⟨rfl, rfl⟩
  rw [canonicalBytes]
  cases hchildren : childrenOf isAll p.normalized with
  | none =>
      rw [childrenOf_eq_none.1 hchildren, (hconstant isAll).2]
      omega
  | some children =>
      rw [members, hchildren, Option.getD_some]
      rcases childrenOf_cases hchildren with hconnect | ⟨hneutral, _⟩ | ⟨hone, _⟩
      · rw [hconnect, length_encode_connect]
      · rw [hneutral, (hconstant isAll).1]
        omega
      · rw [hone, List.map_singleton, List.sum_singleton]
        exact Nat.le_add_right _ 9

/-- What a child adds is arranged. -/
theorem arranged_members (isAll : Bool) (p : Predicate) :
    (members isAll p).Pairwise (fun a b => a.encode ≤ b.encode) ∧
      (members isAll p).IsChain (· ≠ ·) := by
  cases hchildren : childrenOf isAll p.normalized with
  | none =>
      rw [members, hchildren]
      exact ⟨List.Pairwise.nil, List.IsChain.nil⟩
  | some children =>
      rw [members, hchildren, Option.getD_some]
      rcases childrenOf_cases hchildren with hconnect | ⟨_, hnil⟩ | ⟨hone, _⟩
      · have harranged : arrange children = children := by
          have hnormal := p.normal_normalized
          rw [hconnect] at hnormal
          generalize hq : connect isAll children = q at hnormal
          cases hnormal with
          | leaf hleaf _ =>
              subst hq
              cases isAll <;> exact hleaf.elim
          | not _ _ => cases isAll <;> cases hq
          | connect _ _ harranged _ =>
              obtain ⟨rfl, rfl⟩ := connect_inj hq
              exact harranged
        rw [← harranged]
        exact ⟨pairwise_arrange children, isChain_dedup _⟩
      · rw [hnil]
        exact ⟨List.Pairwise.nil, List.IsChain.nil⟩
      · rw [hone]
        exact ⟨List.pairwise_singleton _ _, List.IsChain.singleton _⟩

/-- Children can be repeated behind the others. -/
theorem reaches_append (isAll : Bool) {ps extra : List Predicate} (h : ∀ p ∈ extra, p ∈ ps) :
    Relation.ReflTransGen Variant (connect isAll ps) (connect isAll (ps ++ extra)) := by
  induction extra using List.reverseRecOn with
  | nil => rw [List.append_nil]
  | append_singleton extra p ih =>
      have hp : p ∈ ps ++ extra :=
        List.mem_append_left _ (h p (List.mem_append_right _ (List.mem_singleton_self p)))
      obtain ⟨before, after, hsplit⟩ := List.append_of_mem hp
      have hdup : Variant (connect isAll (ps ++ extra))
          (connect isAll (before ++ p :: p :: after)) := by
        rw [hsplit]
        exact .duplicate isAll before p after
      have hmove : (before ++ p :: p :: after).Perm (ps ++ (extra ++ [p])) := by
        rw [← List.append_assoc, hsplit]
        exact List.perm_middle.trans (List.perm_append_singleton p _).symm
      exact ((ih fun q hq => h q (List.mem_append_left _ hq)).tail hdup).tail (.permute isAll hmove)

/-- Variants of a part are variants of the whole. -/
theorem reaches_child {context : Predicate → Predicate}
    (h : ∀ p q, Variant p q → Variant (context p) (context q)) {p q : Predicate}
    (hpq : Relation.ReflTransGen Variant p q) :
    Relation.ReflTransGen Variant (context p) (context q) := by
  induction hpq with
  | refl => exact .refl
  | tail _ hstep ih => exact ih.tail (h _ _ hstep)

/-- Two members in turn. -/
def alternate (a b : Predicate) : Nat → List Predicate
  | 0 => []
  | n + 1 => a :: b :: alternate a b n

theorem mem_alternate {a b p : Predicate} {n : Nat} (h : p ∈ alternate a b n) : p = a ∨ p = b := by
  induction n with
  | zero => cases h
  | succ n ih =>
      rcases List.mem_cons.1 h with heq | h
      · exact .inl heq
      · rcases List.mem_cons.1 h with heq | h
        · exact .inr heq
        · exact ih h

theorem isChain_alternate {a b : Predicate} (h : a ≠ b) (n : Nat) :
    (alternate a b n).IsChain (· ≠ ·) := by
  induction n with
  | zero => exact List.IsChain.nil
  | succ n ih =>
      refine List.isChain_cons_cons.2 ⟨h, List.isChain_cons.2 ⟨fun c hc => ?_, ih⟩⟩
      cases n with
      | zero => cases hc
      | succ n =>
          cases hc
          exact h.symm

theorem alternate_sublist {isAll : Bool} {a b p q : Predicate} (ha : a ∈ members isAll p)
    (hb : b ∈ members isAll q) (n : Nat) :
    (alternate a b n).Sublist ((alternate p q n).flatMap (members isAll)) := by
  induction n with
  | zero => exact List.Sublist.refl _
  | succ n ih =>
      rw [alternate, alternate, List.flatMap_cons, List.flatMap_cons]
      exact (List.singleton_sublist.2 ha).append ((List.singleton_sublist.2 hb).append ih)

theorem length_alternate (a b : Predicate) (n : Nat) : (alternate a b n).length = 2 * n := by
  induction n with
  | zero => rfl
  | succ n ih =>
      rw [alternate, List.length_cons, List.length_cons, ih]
      omega

theorem length_negate (p : Predicate) : p.encode.length ≤ (negate p).encode.length + 1 := by
  cases p with
  | not p => rw [negate, encode, List.length_cons]
  | _ => simp only [negate, encode, List.length_cons]; omega

/-- **A predicate that is not clean has variants with canonical bytes as long as one likes.** -/
theorem exists_longer {p : Predicate} (h : ¬ Clean p) (n : Nat) :
    ∃ q, Relation.ReflTransGen Variant p q ∧ n ≤ q.canonicalBytes.length := by
  induction p using induct_connect generalizing n with
  | hconnect isAll ps ih =>
      rw [clean_connect_iff, not_or] at h
      obtain ⟨hdecided, hboth⟩ := h
      by_cases hps : ∀ p ∈ ps, Clean p
      · -- Two children that look alike: repeat what contributes them, in turn.
        have hclash : ¬ Distinguished (ps.flatMap (members isAll)) := fun hd => hboth ⟨hps, hd⟩
        simp only [Distinguished, not_forall] at hclash
        obtain ⟨a, ha, b, hb, hencode, hne⟩ := hclash
        obtain ⟨p, hp, ha⟩ := List.mem_flatMap.1 ha
        obtain ⟨q, hq, hb⟩ := List.mem_flatMap.1 hb
        have hextra : ∀ r ∈ alternate p q n, r ∈ ps := fun r hr => by
          rcases mem_alternate hr with rfl | rfl
          · exact hp
          · exact hq
        refine ⟨_, reaches_append isAll hextra, ?_⟩
        have hdecided' : ¬ Decided isAll (ps ++ alternate p q n) := fun ⟨r, hr, habsorbing⟩ => by
          rcases List.mem_append.1 hr with hr | hr
          · exact hdecided ⟨r, hr, habsorbing⟩
          · exact hdecided ⟨r, hextra r hr, habsorbing⟩
        have hsorted : (alternate a b n).Pairwise fun a b => a.encode ≤ b.encode := by
          apply List.pairwise_of_forall_mem_list
          intro x hx y hy
          rcases mem_alternate hx with rfl | rfl <;> rcases mem_alternate hy with rfl | rfl <;>
            simp only [hencode, List.le_refl]
        have hsub : (alternate a b n).Sublist
            ((ps ++ alternate p q n).flatMap (members isAll)) := by
          rw [List.flatMap_append]
          exact (alternate_sublist ha hb n).trans (List.sublist_append_right _ _)
        have hsum := sum_sublist_le isAll hsub hsorted (isChain_alternate hne n)
        have hlength : (alternate a b n).length ≤
            ((alternate a b n).map fun p => p.encode.length).sum := by
          rw [← List.length_map (f := fun p : Predicate => p.encode.length)]
          apply List.length_le_sum_of_one_le
          intro x hx
          obtain ⟨r, _, rfl⟩ := List.mem_map.1 hx
          exact one_le_length_encode r
        rw [length_alternate] at hlength
        rw [canonicalBytes, normalized_gathered hdecided']
        omega
      · -- A child that is not clean: what it grows to shows through.
        simp only [not_forall] at hps
        obtain ⟨p, hp, hp'⟩ := hps
        obtain ⟨q, hq, hlong⟩ := ih p hp hp' (n + 9)
        obtain ⟨before, after, rfl⟩ := List.append_of_mem hp
        refine ⟨connect isAll (before ++ q :: after),
          reaches_child (fun _ _ h => .child isAll before after h) hq, ?_⟩
        have hdecided' : ¬ Decided isAll (before ++ q :: after) := by
          intro ⟨r, hr, habsorbing⟩
          rcases List.mem_append.1 hr with hr | hr
          · exact hdecided ⟨r, List.mem_append_left _ hr, habsorbing⟩
          · rcases List.mem_cons.1 hr with rfl | hr
            · rw [canonicalBytes, habsorbing] at hlong
              cases isAll <;> simp [absorbing, encode] at hlong
            · exact hdecided ⟨r, List.mem_append_right _ (List.mem_cons_of_mem _ hr), habsorbing⟩
        have hsub : (members isAll q).Sublist
            ((before ++ q :: after).flatMap (members isAll)) := by
          rw [List.flatMap_append, List.flatMap_cons]
          exact (List.sublist_append_left _ _).trans (List.sublist_append_right _ _)
        obtain ⟨hsorted, hchain⟩ := arranged_members isAll q
        have hsum := sum_sublist_le isAll hsub hsorted hchain
        have hbytes := length_canonicalBytes_le isAll q
        rw [canonicalBytes, normalized_gathered hdecided']
        omega
  | hnot p ih =>
      obtain ⟨q, hq, hlong⟩ := ih (fun hp => h (.not hp)) (n + 1)
      refine ⟨.not q, reaches_child (fun _ _ h => .not h) hq, ?_⟩
      have hnegate := length_negate q.normalized
      rw [canonicalBytes] at hlong
      rw [canonicalBytes, normalized_not]
      omega
  | hleaf p hp => exact absurd (.leaf hp) h

/-- **Exactly the clean predicates have the canonical bytes of all their variants.** -/
theorem canonicalBytes_variant_iff (p : Predicate) :
    (∀ q, Relation.ReflTransGen Variant p q → q.canonicalBytes = p.canonicalBytes) ↔ Clean p := by
  constructor
  · intro hsame
    by_contra h
    obtain ⟨q, hq, hlong⟩ := exists_longer h (p.canonicalBytes.length + 1)
    rw [hsame q hq] at hlong
    omega
  · intro h q hq
    have hboth : Clean q ∧ q.normalized = p.normalized := by
      induction hq with
      | refl => exact ⟨h, rfl⟩
      | tail _ hstep ih =>
          obtain ⟨hclean, heq⟩ := ih.1.variant hstep
          exact ⟨hclean, heq.trans ih.2⟩
    rw [canonicalBytes, canonicalBytes, hboth.2]

end Predicate

namespace Sample

/-- A built-in kind, a custom kind of its name, and the first again. -/
def lookalikes : Predicate :=
  .all [.entityKind 1 .unit, .entityKind 1 (.other "unit"), .entityKind 1 .unit]

/-- The same children, with the repeat next to the original. -/
def lookalikesMoved : Predicate :=
  .all [.entityKind 1 .unit, .entityKind 1 .unit, .entityKind 1 (.other "unit")]

end Sample

/-- Moving the repeat shortens the canonical bytes. -/
theorem canonicalBytes_lookalikes :
    Predicate.Variant Sample.lookalikes Sample.lookalikesMoved ∧
      Sample.lookalikesMoved.canonicalBytes ≠ Sample.lookalikes.canonicalBytes :=
  ⟨.permute true ((List.Perm.swap _ _ _).cons _), by decide +kernel⟩

end Dfmcp
