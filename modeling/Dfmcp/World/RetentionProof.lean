import Dfmcp.World.Retention
import Dfmcp.Library.Ranking
import Dfmcp.Library.Runs

/-!
# What version retention keeps

A history is any sequence of recordings and collections, with the report each collection made.
The queue of tombstones is always the last `maxTombstones` entries of everything collected so far,
whatever happened; the tombstones themselves follow it as long as no version is freed while an
older entry for it is still queued.

* `Kept` — the newest versions, and the newest of the older ones that a root names, by counting;
* `get?_versions_collect` — a collection keeps exactly these;
* `version_retention` — disjointness, the retained set and its size, and tombstones that stay
  answerable, over whole histories;
* `tombstone_lost` — a version freed twice loses its tombstone to its own older queue entry.
-/

namespace Dfmcp

open Machine Runs Ranking

namespace VersionRetention

variable {r r' : VersionRetention}

/-! ## The loops of a collection -/

/-- The entries that the collection loop does not keep, in the order it meets them. -/
def freedOf (keep : Digest32 → Bool) (entries : List (U 64 × Digest32)) : List Digest32 :=
  (entries.filter fun entry => !keep entry.2).map Prod.snd

/-- What freeing versions does to the store. -/
structure Frees (r : VersionRetention) (freed : List Digest32) (r' : VersionRetention) : Prop where
  recentWindow : r'.recentWindow = r.recentWindow
  maxPinned : r'.maxPinned = r.maxPinned
  nextSeq : r'.nextSeq = r.nextSeq
  versions : ∀ h, r'.versions.get? h = if h ∈ freed then none else r.versions.get? h
  tombstones : ∀ h, r'.tombstones.contains h = true ↔ h ∈ freed ∨ r.tombstones.contains h = true
  order : r'.tombstoneOrder = r.tombstoneOrder ++ freed

theorem Frees.refl (r : VersionRetention) : r.Frees [] r := by
  refine ⟨rfl, rfl, rfl, ?_, ?_, ?_⟩
  · simp
  · simp
  · simp

theorem Frees.cons {freed : List Digest32} {seq : U 64} {hash : Digest32}
    (h : Frees { r with
      versions := r.versions.erase hash
      tombstones := r.tombstones.insert hash (seq, r.nextSeq)
      tombstoneOrder := r.tombstoneOrder ++ [hash] } freed r') : r.Frees (hash :: freed) r' := by
  refine ⟨h.recentWindow, h.maxPinned, h.nextSeq, ?_, ?_, ?_⟩
  · intro q
    rw [h.versions, OMap.get?_erase]
    by_cases hq : q = hash
    · simp [hq]
    · simp [hq]
  · intro q
    rw [h.tombstones, OMap.contains_insert, Bool.or_eq_true, decide_eq_true_eq, List.mem_cons]
    tauto
  · rw [h.order, List.append_assoc, List.singleton_append]

theorem free_spec (keep : Digest32 → Bool) (entries : List (U 64 × Digest32))
    (collected : List Digest32) :
    r.Frees (freedOf keep entries) (free keep entries (r, collected)).1 ∧
      (free keep entries (r, collected)).2 = collected ++ freedOf keep entries := by
  induction entries generalizing r collected with
  | nil => exact ⟨Frees.refl r, (List.append_nil _).symm⟩
  | cons entry entries ih =>
      obtain ⟨seq, hash⟩ := entry
      rw [free]
      by_cases hkeep : keep hash
      · rw [if_pos hkeep]
        simpa [freedOf, hkeep] using ih collected
      · rw [if_neg hkeep]
        have hfreed : freedOf keep ((seq, hash) :: entries) = hash :: freedOf keep entries := by
          simp [freedOf, hkeep]
        obtain ⟨hstate, hlist⟩ := @ih { r with
          versions := r.versions.erase hash
          tombstones := r.tombstones.insert hash (seq, r.nextSeq)
          tombstoneOrder := r.tombstoneOrder ++ [hash] } (collected ++ [hash])
        rw [hfreed]
        exact ⟨hstate.cons, by rw [hlist, List.append_assoc, List.singleton_append]⟩

/-- The eviction loop keeps the end of the queue, and forgets the tombstones of the evicted entries
whose versions are not retained. -/
theorem evict_spec (versions : BTreeMap Digest32 (U 64 × WorldSnapshot)) (queue : List Digest32)
    (tombstones : BTreeMap Digest32 (U 64 × U 64)) :
    (evict versions queue tombstones).1 = queue.drop (queue.length - maxTombstones) ∧
    ∀ h, (evict versions queue tombstones).2.contains h = true ↔
      tombstones.contains h = true ∧
        (h ∈ queue.take (queue.length - maxTombstones) → versions.contains h = true) := by
  induction queue generalizing tombstones with
  | nil => simp [evict]
  | cons old rest ih =>
      rw [evict]
      by_cases hlong : (old :: rest).length > maxTombstones
      · rw [if_pos hlong]
        obtain ⟨hqueue, hmem⟩ := ih (if versions.contains old then tombstones
          else tombstones.erase old)
        have hlength : (old :: rest).length - maxTombstones =
            (rest.length - maxTombstones) + 1 := by
          simp only [List.length_cons] at hlong ⊢
          omega
        rw [hlength, List.drop_succ_cons]
        refine ⟨hqueue, fun h => ?_⟩
        rw [hmem, List.take_succ_cons, List.mem_cons]
        by_cases hold : versions.contains old
        · rw [if_pos hold]
          constructor
          · rintro ⟨ht, hrest⟩
            refine ⟨ht, ?_⟩
            rintro (rfl | hh)
            · exact hold
            · exact hrest hh
          · rintro ⟨ht, hrest⟩
            exact ⟨ht, fun hh => hrest (.inr hh)⟩
        · rw [if_neg hold, OMap.contains_erase, Bool.and_eq_true, decide_eq_true_eq]
          constructor
          · rintro ⟨⟨hne, ht⟩, hrest⟩
            refine ⟨ht, ?_⟩
            rintro (rfl | hh)
            · exact absurd rfl hne
            · exact hrest hh
          · rintro ⟨ht, hrest⟩
            exact ⟨⟨fun heq => hold (heq ▸ hrest (.inl heq)), ht⟩, fun hh => hrest (.inr hh)⟩
      · have hzero : (old :: rest).length - maxTombstones = 0 :=
          Nat.sub_eq_zero_of_le (not_lt.1 hlong)
        rw [if_neg hlong, hzero]
        simp

/-- The versions that a collection frees, oldest first. -/
def freed (r : VersionRetention) (roots : BTreeSet Digest32) : List Digest32 :=
  freedOf (fun hash => r.window.contains hash || (r.pinned roots).contains hash) r.byAge.reverse

/-- What a collection does to the store. -/
structure Collects (r : VersionRetention) (freed : List Digest32) (r' : VersionRetention) :
    Prop where
  recentWindow : r'.recentWindow = r.recentWindow
  maxPinned : r'.maxPinned = r.maxPinned
  nextSeq : r'.nextSeq = r.nextSeq
  versions : ∀ h, r'.versions.get? h = if h ∈ freed then none else r.versions.get? h
  tombstones : ∀ h, r'.tombstones.contains h = true ↔
    (h ∈ freed ∨ r.tombstones.contains h = true) ∧
      (h ∈ (r.tombstoneOrder ++ freed).take
          ((r.tombstoneOrder ++ freed).length - maxTombstones) → r'.versions.contains h = true)
  order : r'.tombstoneOrder = (r.tombstoneOrder ++ freed).drop
    ((r.tombstoneOrder ++ freed).length - maxTombstones)

theorem collect_spec (r : VersionRetention) (roots : BTreeSet Digest32) :
    r.Collects (r.freed roots) (r.collect roots).2 ∧
      (r.collect roots).1.collected = r.freed roots := by
  obtain ⟨hfree, hlist⟩ := r.free_spec
    (fun hash => r.window.contains hash || (r.pinned roots).contains hash) r.byAge.reverse []
  set after := free (fun hash => r.window.contains hash || (r.pinned roots).contains hash)
    r.byAge.reverse (r, [])
  obtain ⟨hqueue, hmem⟩ := evict_spec after.1.versions after.1.tombstoneOrder after.1.tombstones
  refine ⟨⟨hfree.recentWindow, hfree.maxPinned, hfree.nextSeq, hfree.versions, ?_, ?_⟩, ?_⟩
  · intro h
    refine (hmem h).trans ?_
    rw [hfree.tombstones, hfree.order]
    rfl
  · refine hqueue.trans ?_
    rw [hfree.order]
    rfl
  · exact hlist.trans (List.nil_append _)

/-! ## Well-formed stores -/

/-- Versions are filed under their hash with distinct sequences, none of them in the future, and
no version has a tombstone. -/
structure WellFormed (r : VersionRetention) : Prop where
  keyed : ∀ h e, r.versions.get? h = some e → e.2.stateHash = h
  bounded : ∀ h e, r.versions.get? h = some e → e.1 ≤ r.nextSeq
  distinct : ∀ h h' e e', r.versions.get? h = some e → r.versions.get? h' = some e' →
    e.1 = e'.1 → h = h'
  disjoint : ∀ h, r.versions.contains h = true → r.tombstones.contains h = false

theorem wellFormed_new (recentWindow maxPinned : Nat) : (new recentWindow maxPinned).WellFormed := by
  refine ⟨?_, ?_, ?_, ?_⟩
  · intro h e he
    exact nomatch he
  · intro h e he
    exact nomatch he
  · intro h h' e e' he
    exact nomatch he
  · intro h hh
    exact nomatch hh

theorem WellFormed.collects {freed : List Digest32} (hr : r.WellFormed) (h : r.Collects freed r') :
    r'.WellFormed := by
  have hsub : ∀ q e, r'.versions.get? q = some e → q ∉ freed ∧ r.versions.get? q = some e := by
    intro q e he
    rw [h.versions] at he
    by_cases hq : q ∈ freed
    · rw [if_pos hq] at he
      cases he
    · rw [if_neg hq] at he
      exact ⟨hq, he⟩
  refine ⟨?_, ?_, ?_, ?_⟩
  · intro q e he
    exact hr.keyed q e (hsub q e he).2
  · intro q e he
    rw [h.nextSeq]
    exact hr.bounded q e (hsub q e he).2
  · intro q q' e e' he he'
    exact hr.distinct q q' e e' (hsub q e he).2 (hsub q' e' he').2
  · intro q hq
    obtain ⟨e, he⟩ := (OMap.contains_iff _ q).1 hq
    obtain ⟨hfreed, hold⟩ := hsub q e he
    have htomb := hr.disjoint q ((OMap.contains_iff _ q).2 ⟨e, hold⟩)
    rw [← Bool.not_eq_true, h.tombstones]
    rintro ⟨hmem | hmem, -⟩
    · exact hfreed hmem
    · rw [htomb] at hmem
      cases hmem

/-! ## Recording -/

theorem maxBySeq_spec {entries : List (U 64 × WorldSnapshot)} {e : U 64 × WorldSnapshot}
    (h : maxBySeq entries = some e) : e ∈ entries ∧ ∀ x ∈ entries, x.1 ≤ e.1 := by
  -- any fold that keeps the greater of two entries
  have hfold : ∀ keep : Option (U 64 × WorldSnapshot) → U 64 × WorldSnapshot →
        Option (U 64 × WorldSnapshot),
      (∀ entry, keep none entry = some entry) →
      (∀ greatest entry, keep (some greatest) entry =
        if greatest.1 ≤ entry.1 then some entry else some greatest) →
      ∀ (l seen : List (U 64 × WorldSnapshot)) (best : Option (U 64 × WorldSnapshot)),
      (∀ b ∈ best, b ∈ seen) → (∀ x ∈ seen, ∃ b ∈ best, x.1 ≤ b.1) →
      l.foldl keep best = some e → e ∈ seen ++ l ∧ ∀ x ∈ seen ++ l, x.1 ≤ e.1 := by
    intro keep hnone hsome l
    induction l with
    | nil =>
        intro seen best hmem hmax heq
        have heq' : best = some e := heq
        subst heq'
        rw [List.append_nil]
        refine ⟨hmem e rfl, fun x hx => ?_⟩
        obtain ⟨b, hb, hle⟩ := hmax x hx
        obtain rfl : e = b := Option.some.inj hb
        exact hle
    | cons entry l ih =>
        intro seen best hmem hmax heq
        rw [List.append_cons]
        rw [List.foldl_cons] at heq
        refine ih (seen ++ [entry]) _ ?_ ?_ heq
        · cases best with
          | none => simp [hnone]
          | some greatest =>
              intro b hb
              by_cases hle : greatest.1 ≤ entry.1
              · simp only [hsome, if_pos hle, Option.mem_some_iff] at hb
                simp [hb]
              · simp only [hsome, if_neg hle, Option.mem_some_iff] at hb
                exact List.mem_append_left _ (hb ▸ hmem greatest rfl)
        · intro x hx
          cases best with
          | none =>
              rcases List.mem_append.1 hx with hx | hx
              · obtain ⟨b, hb, -⟩ := hmax x hx
                cases hb
              · exact ⟨entry, hnone entry, by rw [List.mem_singleton.1 hx]⟩
          | some greatest =>
              have hseen : x ∈ seen → x.1 ≤ greatest.1 := by
                intro hx
                obtain ⟨b, hb, hle⟩ := hmax x hx
                obtain rfl : greatest = b := Option.some.inj hb
                exact hle
              by_cases hle : greatest.1 ≤ entry.1
              · refine ⟨entry, by simp [hsome, hle], ?_⟩
                rcases List.mem_append.1 hx with hx | hx
                · exact (hseen hx).trans hle
                · rw [List.mem_singleton.1 hx]
              · refine ⟨greatest, by simp [hsome, hle], ?_⟩
                rcases List.mem_append.1 hx with hx | hx
                · exact hseen hx
                · rw [List.mem_singleton.1 hx]
                  exact (not_le.1 hle).le
  exact hfold _ (fun _ => rfl) (fun _ _ => rfl) entries [] none (by simp) (by simp) h

/-- The newest version is filed under its hash, above all others. -/
theorem newest_spec (hr : r.WellFormed) {s : WorldSnapshot} (h : r.newest = some s) :
    ∃ e, r.versions.get? s.stateHash = some e ∧
      ∀ q x, r.versions.get? q = some x → x.1 ≤ e.1 := by
  obtain ⟨e, he, rfl⟩ := Option.map_eq_some_iff.1 h
  obtain ⟨hmem, hmax⟩ := maxBySeq_spec he
  obtain ⟨q, hq⟩ := (OMap.mem_values_iff _ e).1 hmem
  refine ⟨e, ?_, ?_⟩
  · rw [hr.keyed q e hq]
    exact hq
  · intro q' x hx
    exact hmax x ((OMap.mem_values_iff _ x).2 ⟨q', hx⟩)

/-- What recording does: nothing when the version is newest already, else it takes the next
sequence, and its tombstone goes. -/
theorem record_cases {s : WorldSnapshot} (hr : r.WellFormed) (h : r.record s = some r') :
    (r' = r ∧ ∃ e, r.versions.get? s.stateHash = some e ∧
      ∀ q x, r.versions.get? q = some x → x.1 ≤ e.1) ∨
    ∃ seq snapshot, seq.val = r.nextSeq.val + 1 ∧ snapshot.stateHash = s.stateHash ∧
      r' = { r with
        nextSeq := seq
        tombstones := r.tombstones.erase s.stateHash
        versions := r.versions.insert s.stateHash (seq, snapshot) } := by
  unfold record at h
  by_cases hnewest : (r.newest.any fun newest => newest.stateHash = s.stateHash) = true
  · rw [if_pos hnewest] at h
    obtain ⟨n, hn, heq⟩ := (Option.any_eq_true _ _).1 hnewest
    obtain ⟨e, he, hmax⟩ := newest_spec hr hn
    rw [of_decide_eq_true heq] at he
    exact .inl ⟨(Option.some.inj h).symm, e, he, hmax⟩
  · rw [if_neg hnewest] at h
    obtain ⟨seq, hseq, rfl⟩ := Option.map_eq_some_iff.1 h
    have hval : seq.val = r.nextSeq.val + 1 := (U.checkedAdd_eq_some.1 hseq).symm
    cases hget : r.versions.get? s.stateHash with
    | none => exact .inr ⟨seq, s, hval, rfl, rfl⟩
    | some entry => exact .inr ⟨seq, entry.2, hval, hr.keyed _ _ hget, rfl⟩

theorem WellFormed.record {s : WorldSnapshot} (hr : r.WellFormed) (h : r.record s = some r') :
    r'.WellFormed := by
  rcases record_cases hr h with ⟨rfl, -⟩ | ⟨seq, snapshot, hseq, hhash, rfl⟩
  · exact hr
  · have hnew : ∀ q e, r.versions.get? q = some e → e.1 < seq := by
      intro q e he
      have hle : e.1.val ≤ r.nextSeq.val := hr.bounded q e he
      show e.1.val < seq.val
      omega
    refine ⟨?_, ?_, ?_, ?_⟩
    · intro q e he
      rw [OMap.get?_insert] at he
      by_cases hq : q = s.stateHash
      · rw [if_pos hq] at he
        obtain rfl := Option.some.inj he
        exact hhash.trans hq.symm
      · rw [if_neg hq] at he
        exact hr.keyed q e he
    · intro q e he
      rw [OMap.get?_insert] at he
      by_cases hq : q = s.stateHash
      · rw [if_pos hq] at he
        obtain rfl := Option.some.inj he
        exact le_refl seq
      · rw [if_neg hq] at he
        exact (hnew q e he).le
    · intro q q' e e' he he' heq
      rw [OMap.get?_insert] at he he'
      by_cases hq : q = s.stateHash
      · rw [if_pos hq] at he
        obtain rfl := Option.some.inj he
        by_cases hq' : q' = s.stateHash
        · exact hq.trans hq'.symm
        · rw [if_neg hq'] at he'
          exact absurd heq (hnew q' e' he').ne'
      · rw [if_neg hq] at he
        by_cases hq' : q' = s.stateHash
        · rw [if_pos hq'] at he'
          obtain rfl := Option.some.inj he'
          exact absurd heq (hnew q e he).ne
        · rw [if_neg hq'] at he'
          exact hr.distinct q q' e e' he he' heq
    · intro q hq
      rw [OMap.contains_insert, Bool.or_eq_true, decide_eq_true_eq] at hq
      by_cases hqs : q = s.stateHash
      · simp [hqs]
      · rcases hq with hq | hq
        · exact absurd hq hqs
        · simp [hr.disjoint q hq]

/-- **A recorded version is the newest**: no other version has a sequence as high. -/
theorem lt_of_record {s : WorldSnapshot} (hr : r.WellFormed) (h : r.record s = some r') :
    ∃ e, r'.versions.get? s.stateHash = some e ∧
      ∀ q x, q ≠ s.stateHash → r'.versions.get? q = some x → x.1 < e.1 := by
  rcases record_cases hr h with ⟨rfl, e, he, hmax⟩ | ⟨seq, snapshot, hseq, -, rfl⟩
  · refine ⟨e, he, ?_⟩
    intro q x hq hx
    refine lt_of_le_of_ne (hmax q x hx) ?_
    intro heq
    exact hq (hr.distinct q _ x e hx he heq)
  · refine ⟨(seq, snapshot), by simp, ?_⟩
    intro q x hq hx
    rw [OMap.get?_insert, if_neg hq] at hx
    have hle : x.1.val ≤ r.nextSeq.val := hr.bounded q x hx
    show x.1.val < seq.val
    omega

/-! ## The retained set -/

/-- How many versions are newer than a sequence. -/
def newerThan (r : VersionRetention) (seq : U 64) : Nat :=
  r.versions.toList.countP fun entry => seq < entry.2.1

/-- A version is among the newest `recentWindow`. -/
def recent (r : VersionRetention) (hash : Digest32) : Bool :=
  (r.versions.get? hash).any fun entry => r.newerThan entry.1 < r.recentWindow

/-- How many of the older versions that a root names are newer than a sequence. -/
def newerRooted (r : VersionRetention) (roots : BTreeSet Digest32) (seq : U 64) : Nat :=
  r.versions.toList.countP fun entry =>
    seq < entry.2.1 && (!r.recent entry.1 && roots.contains entry.1)

/-- A version is recent, or one of the newest `maxPinned` older ones that a root names. -/
def kept (r : VersionRetention) (roots : BTreeSet Digest32) (hash : Digest32) : Bool :=
  r.recent hash || (r.versions.get? hash).any fun entry =>
    !r.recent hash && roots.contains hash && r.newerRooted roots entry.1 < r.maxPinned

instance : Std.Total fun a b : U 64 × Digest32 => toLex b ≤ toLex a :=
  ⟨fun a b => le_total (toLex b) (toLex a)⟩

instance : IsTrans (U 64 × Digest32) fun a b => toLex b ≤ toLex a :=
  ⟨fun _ _ _ hab hbc => le_trans hbc hab⟩

theorem byAge_perm (r : VersionRetention) :
    r.byAge.Perm (r.versions.toList.map fun entry => (entry.2.1, entry.1)) :=
  List.perm_insertionSort _ _

theorem mem_byAge_iff (r : VersionRetention) (seq : U 64) (hash : Digest32) :
    (seq, hash) ∈ r.byAge ↔ ∃ e, r.versions.get? hash = some e ∧ e.1 = seq := by
  rw [(byAge_perm r).mem_iff, List.mem_map]
  constructor
  · rintro ⟨⟨q, e⟩, hmem, heq⟩
    obtain ⟨rfl, rfl⟩ := Prod.mk.inj heq
    exact ⟨e, (OMap.mem_toList_iff _ q e).1 hmem, rfl⟩
  · rintro ⟨e, he, rfl⟩
    exact ⟨(hash, e), (OMap.mem_toList_iff _ hash e).2 he, rfl⟩

theorem descending_byAge (hr : r.WellFormed) : Descending Prod.fst r.byAge := by
  apply descending_insertionSort
  · intro a b hab
    rcases Prod.Lex.toLex_le_toLex.1 hab with hlt | ⟨heq, -⟩
    · exact hlt.le
    · exact heq.le
  · rw [List.pairwise_map]
    refine (List.Pairwise.and_mem.1 r.versions.toList_sorted).imp ?_
    rintro ⟨q, e⟩ ⟨q', e'⟩ ⟨hq, hq', hlt⟩ heq
    have hqq : q = q' := hr.distinct q q' e e' ((OMap.mem_toList_iff _ q e).1 hq)
      ((OMap.mem_toList_iff _ q' e').1 hq') heq
    exact lt_irrefl _ (hqq ▸ hlt)

theorem nodup_byAge (r : VersionRetention) : (r.byAge.map Prod.snd).Nodup := by
  have hperm := (byAge_perm r).map Prod.snd
  rw [List.map_map] at hperm
  exact hperm.nodup_iff.2 r.versions.keys_nodup

/-- A test on sequences and hashes counts the same in the list by age as in the store. -/
theorem countP_byAge (r : VersionRetention) (p : U 64 × Digest32 → Bool) :
    r.byAge.countP p = r.versions.toList.countP fun entry => p (entry.2.1, entry.1) := by
  rw [(byAge_perm r).countP_eq, List.countP_map]
  rfl

/-- Collecting hashes into a set loses none. -/
theorem contains_ofHashes (entries : List (U 64 × Digest32)) (hash : Digest32) :
    (OMap.ofList (entries.map fun entry => (entry.2, ()))).contains hash = true ↔
      ∃ seq, (seq, hash) ∈ entries := by
  rw [OMap.contains_ofList, List.map_map]
  show hash ∈ entries.map Prod.snd ↔ _
  simp

theorem contains_window (hr : r.WellFormed) (hash : Digest32) :
    r.window.contains hash = r.recent hash := by
  rw [Bool.eq_iff_iff]
  refine (contains_ofHashes _ hash).trans ?_
  simp only [(descending_byAge hr).mem_take_iff, mem_byAge_iff, countP_byAge, recent,
    Option.any_eq_true, decide_eq_true_eq]
  constructor
  · rintro ⟨seq, ⟨e, he, rfl⟩, hcount⟩
    exact ⟨e, he, hcount⟩
  · rintro ⟨e, he, hcount⟩
    exact ⟨e.1, ⟨e, he, rfl⟩, hcount⟩

theorem contains_pinned (hr : r.WellFormed) (roots : BTreeSet Digest32) (hash : Digest32) :
    (r.pinned roots).contains hash = (r.versions.get? hash).any fun entry =>
      !r.recent hash && roots.contains hash && r.newerRooted roots entry.1 < r.maxPinned := by
  rw [Bool.eq_iff_iff]
  refine (contains_ofHashes _ hash).trans ?_
  simp only [contains_window hr]
  simp only [((descending_byAge hr).filter _).mem_take_iff, List.mem_filter, mem_byAge_iff,
    List.countP_filter, countP_byAge, Option.any_eq_true, Bool.and_eq_true, decide_eq_true_eq]
  constructor
  · rintro ⟨seq, ⟨⟨e, he, rfl⟩, htest⟩, hcount⟩
    exact ⟨e, he, htest, hcount⟩
  · rintro ⟨e, he, htest, hcount⟩
    exact ⟨e.1, ⟨⟨e, he, rfl⟩, htest⟩, hcount⟩

/-- The versions freed are the ones that are not kept. -/
theorem mem_freed_iff (hr : r.WellFormed) (roots : BTreeSet Digest32) (hash : Digest32) :
    hash ∈ r.freed roots ↔ r.versions.contains hash = true ∧ r.kept roots hash = false := by
  have hkeep : (r.window.contains hash || (r.pinned roots).contains hash) = r.kept roots hash := by
    rw [contains_window hr, contains_pinned hr]
    rfl
  rw [freed, freedOf, List.mem_map]
  constructor
  · rintro ⟨⟨seq, q⟩, hmem, rfl⟩
    rw [List.mem_filter, List.mem_reverse, mem_byAge_iff] at hmem
    obtain ⟨⟨e, he, -⟩, hnot⟩ := hmem
    exact ⟨(OMap.contains_iff _ _).2 ⟨e, he⟩, hkeep ▸ Bool.not_eq_true' _ ▸ hnot⟩
  · rintro ⟨hmem, hnot⟩
    obtain ⟨e, he⟩ := (OMap.contains_iff _ _).1 hmem
    refine ⟨(e.1, hash), ?_, rfl⟩
    rw [List.mem_filter, List.mem_reverse, mem_byAge_iff]
    exact ⟨⟨e, he, rfl⟩, by rw [hkeep, hnot]; rfl⟩

theorem nodup_freed (r : VersionRetention) (roots : BTreeSet Digest32) : (r.freed roots).Nodup := by
  refine List.Nodup.sublist (List.filter_sublist.map _) ?_
  rw [List.map_reverse, List.nodup_reverse]
  exact nodup_byAge r

/-- **A collection keeps exactly** the recent versions and the newest older ones that a root
names. -/
theorem get?_versions_collect (hr : r.WellFormed) (roots : BTreeSet Digest32) (hash : Digest32) :
    (r.collect roots).2.versions.get? hash =
      if r.kept roots hash then r.versions.get? hash else none := by
  rw [(r.collect_spec roots).1.versions]
  simp only [mem_freed_iff hr]
  by_cases hkept : r.kept roots hash
  · simp [hkept]
  · cases hget : r.versions.get? hash with
    | none => simp
    | some e => simp [hkept, OMap.contains, hget]

/-- What is left after a collection fits in the window and the pins. -/
theorem size_versions_collect_le (hr : r.WellFormed) (roots : BTreeSet Digest32) :
    (r.collect roots).2.versions.size ≤ r.recentWindow + r.maxPinned := by
  set newestOnes := (r.byAge.take r.recentWindow).map Prod.snd
  set pinnedOnes := ((r.byAge.filter fun entry =>
    !r.window.contains entry.2 && roots.contains entry.2).take r.maxPinned).map Prod.snd
  have hsub : (r.collect roots).2.versions.keys ⊆ newestOnes ++ pinnedOnes := by
    intro q hq
    rw [OMap.mem_keys_iff, OMap.contains, get?_versions_collect hr] at hq
    have hkept : r.kept roots q = true := by
      by_contra hnot
      rw [if_neg hnot] at hq
      cases hq
    have hset : (r.window.contains q || (r.pinned roots).contains q) = true := by
      rw [contains_window hr, contains_pinned hr]
      exact hkept
    rw [Bool.or_eq_true] at hset
    rcases hset with hset | hset
    · obtain ⟨seq, hmem⟩ := (contains_ofHashes _ q).1 hset
      exact List.mem_append_left _ (List.mem_map_of_mem hmem)
    · obtain ⟨seq, hmem⟩ := (contains_ofHashes _ q).1 hset
      exact List.mem_append_right _ (List.mem_map_of_mem hmem)
  calc (r.collect roots).2.versions.size
      = (r.collect roots).2.versions.keys.length := (OMap.length_keys _).symm
    _ ≤ (newestOnes ++ pinnedOnes).length :=
        (List.subperm_of_subset (OMap.keys_nodup _) hsub).length_le
    _ ≤ r.recentWindow + r.maxPinned := by
        rw [List.length_append, List.length_map, List.length_map]
        exact Nat.add_le_add (List.length_take_le _ _) (List.length_take_le _ _)

end VersionRetention

/-! ## Histories -/

/-- A recording, or a collection with the report it made. -/
inductive RetentionEvent where
  | record (snapshot : WorldSnapshot)
  | collect (roots : BTreeSet Digest32) (report : RetentionReport)
deriving DecidableEq

namespace RetentionEvent

/-- The versions an event collected, oldest first. -/
def collected : RetentionEvent → List Digest32
  | .record _ => []
  | .collect _ report => report.collected

/-- The event does this to the store. -/
def Step (r : VersionRetention) : RetentionEvent → VersionRetention → Prop
  | .record snapshot, r' => r.record snapshot = some r'
  | .collect roots report, r' => r.collect roots = (report, r')

/-- The event frees no version that still has an entry in the queue of tombstones. -/
def Clean (r : VersionRetention) : RetentionEvent → Prop
  | .record _ => True
  | .collect roots _ => ∀ h ∈ r.tombstoneOrder, r.versions.contains h = true →
      r.kept roots h = true

/-- A step that is clean. -/
def CleanStep (r : VersionRetention) (event : RetentionEvent) (r' : VersionRetention) : Prop :=
  event.Step r r' ∧ event.Clean r

end RetentionEvent

namespace VersionRetention

variable {r r' : VersionRetention} {event : RetentionEvent}

theorem WellFormed.step (hr : r.WellFormed) (h : event.Step r r') : r'.WellFormed := by
  cases event with
  | record snapshot => exact hr.record h
  | collect roots report =>
      have hcollect := (r.collect_spec roots).1
      rw [show r.collect roots = (report, r') from h] at hcollect
      exact hr.collects hcollect

/-- A version comes back only by being recorded. -/
theorem contains_of_step (hr : r.WellFormed) (h : event.Step r r') {v : Digest32}
    (hrecord : ∀ s, event = .record s → s.stateHash ≠ v) (hv : r.versions.contains v = false) :
    r'.versions.contains v = false := by
  cases event with
  | record snapshot =>
      rcases record_cases hr h with ⟨rfl, -⟩ | ⟨seq, stored, -, -, rfl⟩
      · exact hv
      · simp [hv, (hrecord snapshot rfl).symm]
  | collect roots report =>
      have hcollect := (r.collect_spec roots).1.versions v
      rw [show r.collect roots = (report, r') from h] at hcollect
      rw [OMap.contains_eq_false_iff] at hv ⊢
      rw [hcollect, hv, ite_self]

theorem bounds_step (h : event.Step r r') :
    r'.recentWindow = r.recentWindow ∧ r'.maxPinned = r.maxPinned := by
  cases event with
  | record snapshot =>
      have h' : r.record snapshot = some r' := h
      unfold record at h'
      split at h'
      · rw [Option.some.inj h']
        exact ⟨rfl, rfl⟩
      · obtain ⟨seq, -, rfl⟩ := Option.map_eq_some_iff.1 h'
        exact ⟨rfl, rfl⟩
  | collect roots report =>
      have hcollect := (r.collect_spec roots).1
      rw [show r.collect roots = (report, r') from h] at hcollect
      exact ⟨hcollect.recentWindow, hcollect.maxPinned⟩

/-! ## The queue and its tombstones -/

/-- Trimming a queue after every addition is trimming everything at once. -/
theorem drop_append_trimmed {α : Type} (log added : List α) (n : Nat) :
    (log.drop (log.length - n) ++ added).drop
        ((log.drop (log.length - n) ++ added).length - n) =
      (log ++ added).drop ((log ++ added).length - n) := by
  by_cases hlong : n ≤ log.length
  · have hinner : (log.drop (log.length - n) ++ added).length - n = added.length := by
      rw [List.length_append, List.length_drop]
      omega
    have houter : (log ++ added).length - n = (log.length - n) + added.length := by
      rw [List.length_append]
      omega
    have hhead : (log ++ added).drop (log.length - n) = log.drop (log.length - n) ++ added :=
      List.drop_append_of_le_length (Nat.sub_le _ _)
    rw [hinner, houter, ← List.drop_drop, hhead]
  · have hzero : log.length - n = 0 := Nat.sub_eq_zero_of_le (not_le.1 hlong).le
    rw [hzero, List.drop_zero]

/-- The queue is the end of everything collected so far. -/
theorem tombstoneOrder_step {log : List Digest32} (h : event.Step r r')
    (hlog : r.tombstoneOrder = log.drop (log.length - maxTombstones)) :
    r'.tombstoneOrder = (log ++ event.collected).drop
      ((log ++ event.collected).length - maxTombstones) := by
  cases event with
  | record snapshot =>
      have hsame : r'.tombstoneOrder = r.tombstoneOrder := by
        have h' : r.record snapshot = some r' := h
        unfold record at h'
        split at h'
        · rw [Option.some.inj h']
        · obtain ⟨seq, -, rfl⟩ := Option.map_eq_some_iff.1 h'
          rfl
      rw [hsame, hlog, RetentionEvent.collected, List.append_nil]
  | collect roots report =>
      obtain ⟨hcollect, hreport⟩ := r.collect_spec roots
      rw [show r.collect roots = (report, r') from h] at hcollect hreport
      rw [hcollect.order, hlog, RetentionEvent.collected, hreport]
      exact drop_append_trimmed _ _ _

/-- The queue repeats nothing, and every version in it that is not retained has a tombstone. -/
structure Answerable (r : VersionRetention) : Prop where
  nodup : r.tombstoneOrder.Nodup
  answered : ∀ h ∈ r.tombstoneOrder, r.versions.contains h = false →
    r.tombstones.contains h = true

theorem answerable_new (recentWindow maxPinned : Nat) :
    (new recentWindow maxPinned).Answerable :=
  ⟨List.nodup_nil, fun _ h => nomatch h⟩

theorem Answerable.record {s : WorldSnapshot} (ha : r.Answerable) (hr : r.WellFormed)
    (h : r.record s = some r') : r'.Answerable := by
  rcases record_cases hr h with ⟨rfl, -⟩ | ⟨seq, stored, -, -, rfl⟩
  · exact ha
  · refine ⟨ha.nodup, ?_⟩
    intro q hq hnot
    rw [OMap.contains_insert, Bool.or_eq_false_iff, decide_eq_false_iff_not] at hnot
    simp [hnot.1, ha.answered q hq hnot.2]

/-- A clean collection leaves the tombstones in step with the queue: the entries that leave the
queue have no later entry. -/
theorem Answerable.collects {freed : List Digest32} (ha : r.Answerable) (h : r.Collects freed r')
    (hfreed : freed.Nodup) (hclean : ∀ q ∈ r.tombstoneOrder, q ∉ freed) : r'.Answerable := by
  have hnodup : (r.tombstoneOrder ++ freed).Nodup :=
    List.nodup_append'.2 ⟨ha.nodup, hfreed, fun q hq hq' => hclean q hq hq'⟩
  refine ⟨?_, ?_⟩
  · rw [h.order]
    exact hnodup.sublist (List.drop_sublist _ _)
  · intro q hq hnot
    rw [h.order] at hq
    rw [h.tombstones]
    refine ⟨?_, fun hevicted => ?_⟩
    · by_cases hmem : q ∈ freed
      · exact .inl hmem
      · have hqueue : q ∈ r.tombstoneOrder :=
          (List.mem_append.1 (List.mem_of_mem_drop hq)).resolve_right hmem
        refine .inr (ha.answered q hqueue ?_)
        rw [OMap.contains_eq_false_iff, h.versions, if_neg hmem] at hnot
        exact (OMap.contains_eq_false_iff _ q).2 hnot
    · exact absurd hq (List.disjoint_take_drop hnodup le_rfl hevicted)

theorem Answerable.step (ha : r.Answerable) (hr : r.WellFormed) (h : event.CleanStep r r') :
    r'.Answerable := by
  obtain ⟨hstep, hclean⟩ := h
  cases event with
  | record snapshot => exact ha.record hr hstep
  | collect roots report =>
      have hcollect := (r.collect_spec roots).1
      rw [show r.collect roots = (report, r') from hstep] at hcollect
      refine ha.collects hcollect (nodup_freed r roots) ?_
      intro q hq hmem
      obtain ⟨hcontains, hnot⟩ := (mem_freed_iff hr roots q).1 hmem
      rw [hclean q hq hcontains] at hnot
      cases hnot

end VersionRetention

/-! ## Whole histories -/

section Histories

variable {recentWindow maxPinned : Nat} {events after : List RetentionEvent}
  {r r' : VersionRetention}

/-- Everything a history collected, oldest first. -/
def collectedIn (events : List RetentionEvent) : List Digest32 :=
  events.flatMap RetentionEvent.collected

theorem VersionRetention.wellFormed_of_run (hr : r.WellFormed) (h : Run RetentionEvent.Step r events r') :
    r'.WellFormed :=
  h.preserves (fun _ _ _ hr hstep => hr.step hstep) hr

theorem VersionRetention.tombstoneOrder_of_run
    (h : Run RetentionEvent.Step (.new recentWindow maxPinned) events r) :
    r.tombstoneOrder =
      (collectedIn events).drop ((collectedIn events).length - maxTombstones) := by
  rw [collectedIn, List.flatMap_eq_foldl]
  refine h.preserves_fold (P := fun (log : List Digest32) r =>
    r.tombstoneOrder = log.drop (log.length - maxTombstones)) ?_ List.drop_nil.symm
  intro log a event b hlog hstep
  exact VersionRetention.tombstoneOrder_step hstep hlog

theorem VersionRetention.answerable_of_run
    (h : Run RetentionEvent.CleanStep (.new recentWindow maxPinned) events r) :
    r.Answerable := by
  refine (h.preserves (P := fun r => r.WellFormed ∧ r.Answerable) ?_
    ⟨VersionRetention.wellFormed_new _ _, VersionRetention.answerable_new _ _⟩).2
  intro a event b hinv hstep
  exact ⟨hinv.1.step hstep.1, hinv.2.step hinv.1 hstep⟩

theorem VersionRetention.not_contains_of_run (hr : r.WellFormed) (h : Run RetentionEvent.Step r after r')
    {v : Digest32} (hrecord : ∀ s, .record s ∈ after → s.stateHash ≠ v)
    (hv : r.versions.contains v = false) : r'.versions.contains v = false := by
  refine (h.preserves_of_mem (P := fun r => r.WellFormed ∧ r.versions.contains v = false) ?_
    ⟨hr, hv⟩).2
  intro a event b hmem hinv hstep
  refine ⟨hinv.1.step hstep, VersionRetention.contains_of_step hinv.1 hstep ?_ hinv.2⟩
  intro s hs
  exact hrecord s (hs ▸ hmem)

/-- An entry near the end of a list is kept when the list is trimmed. -/
theorem mem_drop_of_near_end {α : Type} {front back : List α} {v : α} {n : Nat}
    (h : back.length < n) :
    v ∈ (front ++ v :: back).drop ((front ++ v :: back).length - n) := by
  have hle : (front ++ v :: back).length - n ≤ front.length := by
    rw [List.length_append, List.length_cons]
    omega
  rw [List.drop_append_of_le_length hle]
  exact List.mem_append_right _ List.mem_cons_self

/-- **Version retention.** In the state that any history leads to, versions and tombstones are
disjoint, and a collection keeps exactly the recent versions and the newest older ones that a root
names, so what is left fits in the window and the pins; recording makes a version the newest. If no
collection of the history freed a version that still had an entry in the queue of tombstones, then
every version that was collected, and not recorded again, has an answerable tombstone until
`maxTombstones` versions have been collected after it. -/
theorem version_retention (recentWindow maxPinned : Nat) (events : List RetentionEvent)
    (r : VersionRetention) :
    (Run RetentionEvent.Step (.new recentWindow maxPinned) events r →
      (∀ h, r.versions.contains h = true → r.tombstones.contains h = false) ∧
      (∀ s r', r.record s = some r' → ∃ e, r'.versions.get? s.stateHash = some e ∧
        ∀ q x, q ≠ s.stateHash → r'.versions.get? q = some x → x.1 < e.1) ∧
      ∀ roots,
        (∀ h, (r.collect roots).2.versions.get? h =
          if r.kept roots h then r.versions.get? h else none) ∧
        (r.collect roots).2.versions.size ≤ max recentWindow 1 + maxPinned) ∧
    (Run RetentionEvent.CleanStep (.new recentWindow maxPinned) events r →
      ∀ before roots report after older v younger,
        events = before ++ .collect roots report :: after →
        report.collected = older ++ v :: younger →
        (∀ s, .record s ∈ after → s.stateHash ≠ v) →
        younger.length + (collectedIn after).length < maxTombstones →
        ∃ lastSeen collectedAt, r.status v = .collected lastSeen collectedAt) := by
  constructor
  · intro hrun
    have hr := VersionRetention.wellFormed_of_run (VersionRetention.wellFormed_new _ _) hrun
    have hbounds : r.recentWindow = max recentWindow 1 ∧ r.maxPinned = maxPinned := by
      refine hrun.preserves (P := fun r => r.recentWindow = max recentWindow 1 ∧
        r.maxPinned = maxPinned) ?_ ⟨rfl, rfl⟩
      intro a event b hb hstep
      exact ⟨(VersionRetention.bounds_step hstep).1.trans hb.1,
        (VersionRetention.bounds_step hstep).2.trans hb.2⟩
    refine ⟨hr.disjoint, fun s r' hrecord => VersionRetention.lt_of_record hr hrecord, ?_⟩
    intro roots
    refine ⟨VersionRetention.get?_versions_collect hr roots, ?_⟩
    rw [← hbounds.1, ← hbounds.2]
    exact VersionRetention.size_versions_collect_le hr roots
  · intro hrun before roots report after older v younger hevents hreport hrecord hlater
    have hanswer := VersionRetention.answerable_of_run hrun
    have hsteps : Run RetentionEvent.Step (.new recentWindow maxPinned) events r :=
      hrun.mono fun _ _ _ hstep => hstep.1
    have hqueue : v ∈ r.tombstoneOrder := by
      have hlog : collectedIn events =
          (collectedIn before ++ older) ++ v :: (younger ++ collectedIn after) := by
        rw [hevents]
        simp [collectedIn, RetentionEvent.collected, hreport]
      rw [VersionRetention.tombstoneOrder_of_run hsteps, hlog]
      apply mem_drop_of_near_end
      rwa [List.length_append]
    have hgone : r.versions.contains v = false := by
      rw [hevents] at hsteps
      obtain ⟨a, hbefore, hrest⟩ := hsteps.of_append
      cases hrest with
      | @cons _ b _ _ _ hstep htail =>
          have ha := VersionRetention.wellFormed_of_run (VersionRetention.wellFormed_new _ _) hbefore
          refine VersionRetention.not_contains_of_run (ha.step hstep) htail hrecord ?_
          obtain ⟨hcollect, hcollected⟩ := a.collect_spec roots
          rw [show a.collect roots = (report, b) from hstep] at hcollect hcollected
          have hmem : v ∈ a.freed roots := by
            rw [← hcollected, hreport]
            simp
          rw [OMap.contains_eq_false_iff, hcollect.versions, if_pos hmem]
    obtain ⟨⟨lastSeen, collectedAt⟩, htomb⟩ :=
      (OMap.contains_iff _ v).1 (hanswer.answered v hqueue hgone)
    refine ⟨lastSeen, collectedAt, ?_⟩
    rw [OMap.contains_eq_false_iff] at hgone
    simp [VersionRetention.status, hgone, htomb]

end Histories

/-! ## A version freed twice -/

/-- Two worlds that a store with room for one version alternates between. -/
def firstVersion : WorldSnapshot := Sample.snapshot 1 .empty
def secondVersion : WorldSnapshot := Sample.snapshot 2 .empty

theorem firstVersion_ne : firstVersion.stateHash ≠ secondVersion.stateHash := by
  decide +kernel

/-- The version retained after `k` collections. -/
def heldAfter (k : Nat) : WorldSnapshot := if k % 2 = 0 then firstVersion else secondVersion

theorem heldAfter_ne (k : Nat) : (heldAfter (k + 1)).stateHash ≠ (heldAfter k).stateHash := by
  unfold heldAfter
  rcases Nat.mod_two_eq_zero_or_one k with h | h
  · rw [if_neg (by omega), if_pos h]
    exact firstVersion_ne.symm
  · rw [if_pos (by omega), if_neg (by omega)]
    exact firstVersion_ne

/-- A store with room for one version, after both were recorded. -/
def bothRecorded : VersionRetention :=
  (((VersionRetention.new 1 0).record firstVersion).bind (·.record secondVersion)).getD (.new 1 0)

theorem bothRecorded_run : Run RetentionEvent.CleanStep (.new 1 0)
    [.record firstVersion, .record secondVersion, .collect .nil (bothRecorded.collect .nil).1]
    (bothRecorded.collect .nil).2 := by
  have hfirst : (VersionRetention.new 1 0).record firstVersion =
      some (((VersionRetention.new 1 0).record firstVersion).getD (.new 1 0)) := rfl
  refine .cons ⟨hfirst, trivial⟩ (.cons ⟨(?_ : _ = some bothRecorded), trivial⟩
    (.cons ⟨rfl, ?_⟩ (.nil _)))
  · decide +kernel
  · have hempty : bothRecorded.tombstoneOrder = [] := by decide +kernel
    intro h hh
    rw [hempty] at hh
    cases hh

/-- The version freed first is answerable right after. -/
theorem version_retention_once : ∃ lastSeen collectedAt,
    (bothRecorded.collect .nil).2.status firstVersion.stateHash =
      .collected lastSeen collectedAt := by
  refine (version_retention 1 0 _ _).2 bothRecorded_run
    [.record firstVersion, .record secondVersion] .nil _ [] [] firstVersion.stateHash [] rfl
    (by decide +kernel) ?_ ?_
  · intro s hs
    cases hs
  · unfold maxTombstones
    decide

namespace VersionRetention

variable {r : VersionRetention} {k : Nat}

/-- The store after `k` collections of the alternating history. -/
structure Alternated (k : Nat) (r : VersionRetention) : Prop where
  wellFormed : r.WellFormed
  recentWindow : r.recentWindow = 1
  nextSeq : r.nextSeq.val = k + 1
  versions : ∀ h, r.versions.get? h =
    if h = (heldAfter k).stateHash then some (r.nextSeq, heldAfter k) else none
  length : r.tombstoneOrder.length = k
  head : ∀ h ∈ r.tombstoneOrder.head?, h = firstVersion.stateHash

/-- Recording the other version. -/
def swapped (r : VersionRetention) (k : Nat) (seq : U 64) : VersionRetention :=
  { r with
    nextSeq := seq
    tombstones := r.tombstones.erase (heldAfter (k + 1)).stateHash
    versions := r.versions.insert (heldAfter (k + 1)).stateHash (seq, heldAfter (k + 1)) }

theorem Alternated.record (h : Alternated k r) (hk : k ≤ maxTombstones) :
    ∃ seq, seq.val = k + 2 ∧ r.record (heldAfter (k + 1)) = some (swapped r k seq) := by
  have hnewest : ¬ (r.newest.any fun newest =>
      newest.stateHash = (heldAfter (k + 1)).stateHash) = true := by
    intro hany
    obtain ⟨n, hn, heq⟩ := (Option.any_eq_true _ _).1 hany
    obtain ⟨e, he, -⟩ := newest_spec h.wellFormed hn
    rw [of_decide_eq_true heq, h.versions, if_neg (heldAfter_ne k)] at he
    cases he
  have hlt : k + 2 < 2 ^ 64 := by
    have hmax : maxTombstones = 4096 := by unfold maxTombstones; rfl
    omega
  have hseq : U.checkedAdd r.nextSeq 1 = some ⟨k + 2, hlt⟩ := by
    rw [U.checkedAdd_eq_some, h.nextSeq]
    rfl
  refine ⟨⟨k + 2, hlt⟩, rfl, ?_⟩
  rw [VersionRetention.record, if_neg hnewest, hseq, Option.map_some, h.versions,
    if_neg (heldAfter_ne k)]
  rfl

theorem get?_swapped (h : Alternated k r) (seq : U 64) (q : Digest32) :
    (swapped r k seq).versions.get? q =
      if q = (heldAfter (k + 1)).stateHash then some (seq, heldAfter (k + 1))
      else if q = (heldAfter k).stateHash then some (r.nextSeq, heldAfter k) else none := by
  rw [swapped, OMap.get?_insert, h.versions]

/-- With room for one version, only the version just recorded is kept. -/
theorem kept_swapped (h : Alternated k r) {seq : U 64} (hseq : seq.val = k + 2) :
    (swapped r k seq).kept .nil (heldAfter (k + 1)).stateHash = true ∧
      (swapped r k seq).kept .nil (heldAfter k).stateHash = false := by
  have hget := get?_swapped h seq
  have hlt : r.nextSeq < seq := by
    show r.nextSeq.val < seq.val
    rw [h.nextSeq, hseq]
    omega
  have hnone : (swapped r k seq).newerThan seq = 0 := by
    rw [newerThan, List.countP_eq_zero]
    rintro ⟨q, e⟩ hmem
    have he := (OMap.mem_toList_iff _ q e).1 hmem
    rw [hget] at he
    split at he
    · obtain rfl := Option.some.inj he
      simp
    · split at he
      · obtain rfl := Option.some.inj he
        simpa using hlt.le
      · cases he
  have hsome : 0 < (swapped r k seq).newerThan r.nextSeq := by
    rw [newerThan, List.countP_pos_iff]
    refine ⟨((heldAfter (k + 1)).stateHash, (seq, heldAfter (k + 1))), ?_, by simpa using hlt⟩
    rw [OMap.mem_toList_iff, hget, if_pos rfl]
  have hwindow : (swapped r k seq).recentWindow = 1 := h.recentWindow
  constructor
  · simp [kept, recent, hget, hnone, hwindow]
  · have hne := (heldAfter_ne k).symm
    simp [kept, recent, hget, hwindow, hne, hsome.ne', OMap.contains]

/-- Collecting then frees the version held before. -/
theorem freed_swapped (h : Alternated k r) {seq : U 64} (hseq : seq.val = k + 2)
    (hwf : (swapped r k seq).WellFormed) :
    (swapped r k seq).freed .nil = [(heldAfter k).stateHash] := by
  refine List.perm_singleton.1 ((List.perm_ext_iff_of_nodup (nodup_freed _ _)
    (List.nodup_singleton _)).2 fun q => ?_)
  rw [mem_freed_iff hwf, List.mem_singleton, OMap.contains_iff]
  obtain ⟨hkept, hfreed⟩ := kept_swapped h hseq
  constructor
  · rintro ⟨⟨e, he⟩, hnot⟩
    by_contra hq
    rw [get?_swapped h, if_neg hq] at he
    by_cases hq' : q = (heldAfter (k + 1)).stateHash
    · rw [hq', hkept] at hnot
      cases hnot
    · rw [if_neg hq'] at he
      cases he
  · rintro rfl
    refine ⟨⟨(r.nextSeq, heldAfter k), ?_⟩, hfreed⟩
    rw [get?_swapped h, if_neg (heldAfter_ne k).symm, if_pos rfl]

/-- One turn of the alternating history. -/
theorem Alternated.turn (h : Alternated k r) (hk : k ≤ maxTombstones) :
    ∃ seq report r', seq.val = k + 2 ∧ r'.WellFormed ∧
      Run RetentionEvent.Step r [.record (heldAfter (k + 1)), .collect .nil report] r' ∧
      report.collected = [(heldAfter k).stateHash] ∧
      (swapped r k seq).Collects [(heldAfter k).stateHash] r' := by
  obtain ⟨seq, hseq, hrecord⟩ := h.record hk
  have hwf : (swapped r k seq).WellFormed := h.wellFormed.record hrecord
  obtain ⟨hcollect, hreport⟩ := (swapped r k seq).collect_spec .nil
  rw [freed_swapped h hseq hwf] at hcollect hreport
  exact ⟨seq, _, _, hseq, hwf.collects hcollect, .cons hrecord (.cons rfl (.nil _)), hreport,
    hcollect⟩

/-- Below the bound on the queue the pattern goes on. -/
theorem Alternated.next (h : Alternated k r) (hk : k < maxTombstones) :
    ∃ events r', Run RetentionEvent.Step r events r' ∧ Alternated (k + 1) r' := by
  obtain ⟨seq, report, r', hseq, hwf, hrun, -, hcollect⟩ := h.turn hk.le
  have hlength : ((swapped r k seq).tombstoneOrder ++ [(heldAfter k).stateHash]).length = k + 1 := by
    rw [List.length_append, List.length_singleton]
    exact congrArg (· + 1) h.length
  have horder : r'.tombstoneOrder = r.tombstoneOrder ++ [(heldAfter k).stateHash] := by
    rw [hcollect.order, hlength, Nat.sub_eq_zero_of_le hk, List.drop_zero]
    rfl
  refine ⟨_, r', hrun, hwf, hcollect.recentWindow.trans h.recentWindow, ?_, ?_, ?_, ?_⟩
  · rw [hcollect.nextSeq]
    exact hseq
  · intro q
    rw [hcollect.versions, get?_swapped h, hcollect.nextSeq]
    by_cases hq : q = (heldAfter (k + 1)).stateHash
    · have hne : q ∉ [(heldAfter k).stateHash] := by
        rw [List.mem_singleton, hq]
        exact heldAfter_ne k
      rw [if_neg hne, if_pos hq]
      exact (if_pos hq).symm
    · rw [if_neg hq, if_neg hq]
      by_cases hq' : q = (heldAfter k).stateHash
      · rw [if_pos (List.mem_singleton.2 hq')]
      · rw [if_neg hq', ite_self]
  · rw [horder, List.length_append, List.length_singleton, h.length]
  · intro q hq
    rw [horder] at hq
    cases hqueue : r.tombstoneOrder with
    | nil =>
        have hzero : k = 0 := by rw [← h.length, hqueue]; rfl
        rw [hqueue] at hq
        subst hzero
        exact (Option.some.inj hq).symm
    | cons first rest =>
        rw [hqueue] at hq
        exact h.head q (by rw [hqueue]; exact hq)

theorem exists_alternated (k : Nat) (hk : k ≤ maxTombstones) :
    ∃ events r, Run RetentionEvent.Step (new 1 0) events r ∧ Alternated k r := by
  induction k with
  | zero =>
      refine ⟨[.record firstVersion], _,
        .cons (i := RetentionEvent.record firstVersion) rfl (.nil _),
        (wellFormed_new 1 0).record rfl, rfl, rfl, ?_, rfl, ?_⟩
      · intro h
        exact OMap.get?_insert .nil _ _ h
      · intro h hh
        cases hh
  | succ k ih =>
      obtain ⟨events, r, hrun, halt⟩ := ih (Nat.le_of_succ_le hk)
      obtain ⟨more, r', hmore, halt'⟩ := halt.next hk
      exact ⟨events ++ more, r', hrun.append hmore, halt'⟩

end VersionRetention

/-- **A fresh tombstone is lost to a stale queue entry.** Two versions alternate in a store with
room for one. The collection that makes the queue overflow frees the first version and, in the same
pass, evicts that version's oldest queue entry, and with it the tombstone just written: nothing was
collected after it, it was not recorded again, and the store does not know it. -/
theorem tombstone_lost :
    ∃ before report r,
      Run RetentionEvent.Step (.new 1 0) (before ++ [.collect .nil report]) r ∧
      report.collected = [firstVersion.stateHash] ∧
      r.status firstVersion.stateHash = .unknown := by
  obtain ⟨events, r, hrun, halt⟩ := VersionRetention.exists_alternated maxTombstones le_rfl
  obtain ⟨seq, report, r', hseq, -, hturn, hreport, hcollect⟩ := halt.turn le_rfl
  have hheld : heldAfter maxTombstones = firstVersion := by
    unfold heldAfter maxTombstones
    rfl
  rw [hheld] at hreport hcollect
  refine ⟨events ++ [.record (heldAfter (maxTombstones + 1))], report, r', ?_, hreport, ?_⟩
  · rw [List.append_assoc]
    exact hrun.append hturn
  · have hgone : r'.versions.get? firstVersion.stateHash = none := by
      rw [hcollect.versions, if_pos List.mem_cons_self]
    have hqueue : firstVersion.stateHash ∈
        (r.tombstoneOrder ++ [firstVersion.stateHash]).take 1 := by
      cases hfirst : r.tombstoneOrder with
      | nil => simp
      | cons first rest =>
          have hhead := halt.head first (by rw [hfirst]; rfl)
          simp [hhead]
    have htomb : r'.tombstones.get? firstVersion.stateHash = none := by
      rw [← OMap.contains_eq_false_iff, ← Bool.not_eq_true, hcollect.tombstones]
      rintro ⟨-, hevicted⟩
      have hone : ((VersionRetention.swapped r maxTombstones seq).tombstoneOrder ++
          [firstVersion.stateHash]).length - maxTombstones = 1 := by
        rw [List.length_append, List.length_singleton]
        have hlength : (VersionRetention.swapped r maxTombstones seq).tombstoneOrder.length =
          maxTombstones := halt.length
        omega
      rw [hone] at hevicted
      have hcontains := hevicted hqueue
      rw [OMap.contains, hgone] at hcontains
      cases hcontains
    simp [VersionRetention.status, hgone, htomb]

end Dfmcp
