import Dfmcp.Core.AnchorV2

/-!
# The codec and the continuity of anchors

Every reader of the decoder accepts exactly the bytes its field is written as, so the decoder
accepts exactly the canonical bytes of the anchors with a valid protocol label. Handles are admitted
along a relation that holds the lineage, the epochs and the bridge fixed and lets the snapshot
sequence only grow.

* `takeAnchor_ok_iff` — the fields of an anchor, read one after the other;
* `fromCanonicalBytes_ok_iff` — what the decoder accepts;
* `admits_iff` — when an anchor admits the handles of another;
* `anchor_codec_and_continuity` — the codec and the relation together.
-/

namespace Dfmcp

open Machine Wire

namespace StateAnchorV2

variable {bs rest : Bytes}

/-! ## Reading fields -/

theorem takeBytes_ok_iff {n : Nat} {raw : Bytes} :
    takeBytes n bs = .ok (raw, rest) ↔ bs = raw ++ rest ∧ raw.length = n := run_take_ok_iff

/-- A reader that turns a fixed number of bytes into a value. -/
theorem takeFixed_ok_iff {α : Type} {n : Nat} {decode : Bytes → α} {encode : α → Bytes}
    (hencode : ∀ raw : Bytes, raw.length = n → encode (decode raw) = raw)
    (hdecode : ∀ a, decode (encode a) = a) (hlength : ∀ a, (encode a).length = n) {a : α} :
    (takeBytes n >>= fun raw => pure (decode raw) : Decoder α) bs = .ok (a, rest) ↔
      bs = encode a ++ rest := by
  rw [run_bind_ok_iff]
  constructor
  · intro h
    obtain ⟨raw, tail, hraw, hpure⟩ := h
    obtain ⟨rfl, hlen⟩ := takeBytes_ok_iff.1 hraw
    obtain ⟨rfl, rfl⟩ := run_pure_ok_iff.1 hpure
    rw [hencode raw hlen]
  · intro h
    exact ⟨encode a, rest, takeBytes_ok_iff.2 ⟨h, hlength a⟩,
      run_pure_ok_iff.2 ⟨(hdecode a).symm, rfl⟩⟩

theorem takeDigest_ok_iff {d : Digest32} :
    takeDigest bs = .ok (d, rest) ↔ bs = d.bytes ++ rest :=
  takeFixed_ok_iff (fun _ => Digest32.bytes_fromBytes) Digest32.fromBytes_bytes Digest32.length_eq

theorem wrap_ofBe_u64Bytes (x : U 64) : U.wrap (ofBe (u64Bytes x)) = x := by
  apply Fin.ext
  have hlt : x.val < 256 ^ 8 := x.isLt
  rw [u64Bytes, ofBe_beBytes, Nat.mod_eq_of_lt hlt]
  exact Nat.mod_eq_of_lt x.isLt

theorem u64Bytes_wrap_ofBe {raw : Bytes} (h : raw.length = 8) :
    u64Bytes (U.wrap (ofBe raw)) = raw := by
  have hlt : ofBe raw < 2 ^ 64 := by
    have hraw := ofBe_lt raw
    rw [h] at hraw
    exact hraw
  rw [u64Bytes, U.wrap_val hlt, ← h, beBytes_ofBe]

theorem takeU64_ok_iff {x : U 64} : takeU64 bs = .ok (x, rest) ↔ bs = u64Bytes x ++ rest :=
  takeFixed_ok_iff (fun _ => u64Bytes_wrap_ofBe) wrap_ofBe_u64Bytes fun x => length_beBytes 8 x.val

theorem takeByte_ok_iff {b : UInt8} : takeByte bs = .ok (b, rest) ↔ bs = b :: rest := by
  refine @takeFixed_ok_iff _ _ _ 1 (fun raw => raw.headD 0) (fun b => [b]) (fun raw hraw => ?_)
    (fun _ => rfl) (fun _ => rfl) b
  obtain ⟨b, rfl⟩ := List.length_eq_one_iff.1 hraw
  rfl

theorem takeTick_ok_iff {tick : Option GameTick} :
    takeTick bs = .ok (tick, rest) ↔ bs = tickBytes tick ++ rest := by
  unfold takeTick
  rw [run_bind_ok_iff]
  constructor
  · intro h
    obtain ⟨tag, after, htag, hafter⟩ := h
    obtain ⟨value, tail, hvalue, hlast⟩ := run_bind_ok_iff.1 hafter
    rw [takeByte_ok_iff.1 htag, takeU64_ok_iff.1 hvalue]
    split_ifs at hlast with hone hzero
    · obtain ⟨rfl, rfl⟩ := run_pure_ok_iff.1 hlast
      rw [hone]
      rfl
    · obtain ⟨rfl, rfl⟩ := run_pure_ok_iff.1 hlast
      rw [hzero.1, hzero.2]
      rfl
    · cases hlast
  · intro h
    cases tick with
    | some value =>
        refine ⟨1, u64Bytes value ++ rest, takeByte_ok_iff.2 h, ?_⟩
        exact run_bind_ok_iff.2 ⟨value, rest, takeU64_ok_iff.2 rfl, rfl⟩
    | none =>
        refine ⟨0, u64Bytes 0 ++ rest, takeByte_ok_iff.2 h, ?_⟩
        exact run_bind_ok_iff.2 ⟨0, rest, takeU64_ok_iff.2 rfl, rfl⟩

/-- A label is read back when its length fits a byte. -/
theorem takeLabel_ok_iff {label : String} :
    takeLabel bs = .ok (label, rest) ↔ bs = labelBytes label ++ rest ∧ strLen label < 256 := by
  unfold takeLabel
  rw [run_bind_ok_iff]
  constructor
  · intro h
    obtain ⟨length, after, hlength, hafter⟩ := h
    obtain ⟨raw, tail, hraw, hlast⟩ := run_bind_ok_iff.1 hafter
    obtain ⟨htail, hlen⟩ := takeBytes_ok_iff.1 hraw
    rw [takeByte_ok_iff.1 hlength, htail]
    cases hutf : fromUtf8 raw with
    | none =>
        rw [hutf] at hlast
        cases hlast
    | some text =>
        rw [hutf] at hlast
        obtain ⟨rfl, rfl⟩ := run_pure_ok_iff.1 hlast
        have hbytes := utf8_of_fromUtf8 hutf
        have hstr : strLen label = length.toNat := by rw [strLen, hbytes, hlen]
        refine ⟨?_, by rw [hstr]; exact length.toNat_lt⟩
        rw [labelBytes, hstr, hbytes, UInt8.ofNat_toNat]
        rfl
  · intro h
    obtain ⟨rfl, hlt⟩ := h
    refine ⟨UInt8.ofNat (strLen label), utf8 label ++ rest, takeByte_ok_iff.2 rfl, ?_⟩
    have hnat : (UInt8.ofNat (strLen label)).toNat = strLen label := by
      rw [UInt8.toNat_ofNat']
      exact Nat.mod_eq_of_lt hlt
    refine run_bind_ok_iff.2 ⟨utf8 label, rest, takeBytes_ok_iff.2 ⟨rfl, hnat.symm⟩, ?_⟩
    rw [fromUtf8_utf8]
    rfl

/-- The bytes of an anchor after the domain. -/
def fieldBytes (a : StateAnchorV2) : Bytes :=
  a.fortressLineage.bytes ++ (u64Bytes a.observationEpoch ++ (u64Bytes a.snapshotSequence ++
    (tickBytes a.gameTick ++ (u64Bytes a.bridgeGeneration ++ (labelBytes a.bridgeProtocol ++
    (u64Bytes a.adapterEpoch ++ (u64Bytes a.schemaEpoch ++ (u64Bytes a.policyEpoch ++
    a.semanticWorldRoot.bytes))))))))

theorem canonicalBytes_eq (a : StateAnchorV2) : a.canonicalBytes = domain ++ a.fieldBytes := rfl

/-- **The fields are read one after the other**, from exactly the bytes they are written as. -/
theorem takeAnchor_ok_iff {a : StateAnchorV2} :
    takeAnchor bs = .ok (a, rest) ↔ bs = a.fieldBytes ++ rest ∧ strLen a.bridgeProtocol < 256 := by
  unfold takeAnchor fieldBytes
  simp only [List.append_assoc]
  constructor
  · intro h
    obtain ⟨lineage, _, hlineage, h⟩ := run_bind_ok_iff.1 h
    obtain ⟨epoch, _, hepoch, h⟩ := run_bind_ok_iff.1 h
    obtain ⟨sequence, _, hsequence, h⟩ := run_bind_ok_iff.1 h
    obtain ⟨tick, _, htick, h⟩ := run_bind_ok_iff.1 h
    obtain ⟨generation, _, hgeneration, h⟩ := run_bind_ok_iff.1 h
    obtain ⟨label, _, hlabel, h⟩ := run_bind_ok_iff.1 h
    obtain ⟨adapter, _, hadapter, h⟩ := run_bind_ok_iff.1 h
    obtain ⟨schema, _, hschema, h⟩ := run_bind_ok_iff.1 h
    obtain ⟨policy, _, hpolicy, h⟩ := run_bind_ok_iff.1 h
    obtain ⟨root, _, hroot, h⟩ := run_bind_ok_iff.1 h
    obtain ⟨rfl, rfl⟩ := run_pure_ok_iff.1 h
    obtain ⟨hlabel, hlt⟩ := takeLabel_ok_iff.1 hlabel
    refine ⟨?_, hlt⟩
    rw [takeDigest_ok_iff.1 hlineage, takeU64_ok_iff.1 hepoch, takeU64_ok_iff.1 hsequence,
      takeTick_ok_iff.1 htick, takeU64_ok_iff.1 hgeneration, hlabel, takeU64_ok_iff.1 hadapter,
      takeU64_ok_iff.1 hschema, takeU64_ok_iff.1 hpolicy, takeDigest_ok_iff.1 hroot]
  · intro h
    obtain ⟨h, hlt⟩ := h
    refine run_bind_ok_iff.2 ⟨a.fortressLineage, _, takeDigest_ok_iff.2 h, ?_⟩
    refine run_bind_ok_iff.2 ⟨a.observationEpoch, _, takeU64_ok_iff.2 rfl, ?_⟩
    refine run_bind_ok_iff.2 ⟨a.snapshotSequence, _, takeU64_ok_iff.2 rfl, ?_⟩
    refine run_bind_ok_iff.2 ⟨a.gameTick, _, takeTick_ok_iff.2 rfl, ?_⟩
    refine run_bind_ok_iff.2 ⟨a.bridgeGeneration, _, takeU64_ok_iff.2 rfl, ?_⟩
    refine run_bind_ok_iff.2 ⟨a.bridgeProtocol, _, takeLabel_ok_iff.2 ⟨rfl, hlt⟩, ?_⟩
    refine run_bind_ok_iff.2 ⟨a.adapterEpoch, _, takeU64_ok_iff.2 rfl, ?_⟩
    refine run_bind_ok_iff.2 ⟨a.schemaEpoch, _, takeU64_ok_iff.2 rfl, ?_⟩
    refine run_bind_ok_iff.2 ⟨a.policyEpoch, _, takeU64_ok_iff.2 rfl, ?_⟩
    exact run_bind_ok_iff.2 ⟨a.semanticWorldRoot, rest, takeDigest_ok_iff.2 rfl, rfl⟩

/-! ## The codec -/

theorem strLen_of_validate {a : StateAnchorV2} (h : a.validate = .ok ()) :
    strLen a.bridgeProtocol ≤ maxProtocolBytes := by
  unfold validate at h
  split_ifs at h with hbad
  exact not_lt.1 fun hlong => hbad (Or.inr (Or.inl hlong))

/-- **What the decoder accepts**: the canonical bytes of the anchors with a valid label. -/
theorem fromCanonicalBytes_ok_iff {bytes : Bytes} {a : StateAnchorV2} :
    fromCanonicalBytes bytes = .ok a ↔ a.validate = .ok () ∧ bytes = a.canonicalBytes := by
  unfold fromCanonicalBytes
  constructor
  · intro h
    split_ifs at h with hdomain
    obtain ⟨⟨anchor, tail⟩, htake, h⟩ := bind_ok_iff.1 h
    obtain ⟨hrest, h⟩ := guard_ok_iff.1 h
    obtain ⟨hvalid, h⟩ := check_ok_iff.1 h
    obtain rfl := pure_ok_iff.1 h
    obtain ⟨hfields, -⟩ := takeAnchor_ok_iff.1 htake
    refine ⟨hvalid, ?_⟩
    rw [not_not.1 hrest, List.append_nil] at hfields
    rw [canonicalBytes_eq, ← hfields, ← not_not.1 hdomain, List.length_take]
    calc bytes = bytes.take domain.length ++ bytes.drop domain.length :=
          (List.take_append_drop _ _).symm
      _ = _ := by rw [← List.length_take, not_not.1 hdomain]
  · intro h
    obtain ⟨hvalid, rfl⟩ := h
    have hshort := strLen_of_validate hvalid
    have htake : (a.canonicalBytes).take domain.length = domain := by
      rw [canonicalBytes_eq, List.take_left]
    have hdrop : (a.canonicalBytes).drop domain.length = a.fieldBytes := by
      rw [canonicalBytes_eq, List.drop_left]
    have hread : takeAnchor a.fieldBytes = .ok (a, []) := by
      refine takeAnchor_ok_iff.2 ⟨(List.append_nil _).symm, ?_⟩
      exact lt_of_le_of_lt hshort (by decide)
    rw [if_neg (not_not.2 htake), hdrop]
    refine bind_ok_iff.2 ⟨(a, []), hread, ?_⟩
    refine guard_ok_iff.2 ⟨not_not.2 rfl, check_ok_iff.2 ⟨hvalid, rfl⟩⟩

/-- What is lifted has a valid label. -/
theorem validate_of_fromV1 {anchor : StateAnchor} {epochs : AnchorEpochs} {a : StateAnchorV2}
    (h : fromV1 anchor epochs = .ok a) : a.validate = .ok () := by
  obtain ⟨hvalid, h⟩ := check_ok_iff.1 h
  obtain rfl := pure_ok_iff.1 h
  exact hvalid

/-! ## Continuity -/

/-- What two anchors share when handles pass from one to the other. -/
structure SameLine (newer older : StateAnchorV2) : Prop where
  lineage : newer.fortressLineage = older.fortressLineage
  protocol : newer.bridgeProtocol = older.bridgeProtocol
  epochs : (newer.adapterEpoch, newer.schemaEpoch, newer.policyEpoch) =
    (older.adapterEpoch, older.schemaEpoch, older.policyEpoch)
  observation : newer.observationEpoch = older.observationEpoch
  bridge : newer.bridgeGeneration = older.bridgeGeneration

/-- **When handles are admitted**: on one line, by the same anchor or by a later snapshot. -/
theorem admits_iff (self older : StateAnchorV2) :
    self.admits older = true ↔ self.SameLine older ∧
      (older.snapshotSequence < self.snapshotSequence ∨ self = older) := by
  unfold admits continuityFrom
  constructor
  · intro h
    by_cases hlineage : self.fortressLineage ≠ older.fortressLineage
    · rw [if_pos hlineage] at h
      cases h
    by_cases hprotocol : self.bridgeProtocol ≠ older.bridgeProtocol
    · rw [if_neg hlineage, if_pos hprotocol] at h
      cases h
    by_cases hepochs : (self.adapterEpoch, self.schemaEpoch, self.policyEpoch) ≠
        (older.adapterEpoch, older.schemaEpoch, older.policyEpoch)
    · rw [if_neg hlineage, if_neg hprotocol, if_pos hepochs] at h
      cases h
    rw [if_neg hlineage, if_neg hprotocol, if_neg hepochs] at h
    cases hobservation : compare self.observationEpoch older.observationEpoch with
    | lt =>
        rw [hobservation] at h
        cases h
    | gt =>
        rw [hobservation] at h
        cases h
    | eq =>
        rw [hobservation] at h
        dsimp only at h
        by_cases hbridge : self.bridgeGeneration ≠ older.bridgeGeneration
        · rw [if_pos hbridge] at h
          cases h
        rw [if_neg hbridge] at h
        have hline : self.SameLine older := ⟨not_not.1 hlineage, not_not.1 hprotocol,
          not_not.1 hepochs, compare_eq_iff_eq.1 hobservation, not_not.1 hbridge⟩
        refine ⟨hline, ?_⟩
        cases hsequence : compare self.snapshotSequence older.snapshotSequence with
        | lt =>
            rw [hsequence] at h
            cases h
        | gt => exact Or.inl (compare_gt_iff_gt.1 hsequence)
        | eq =>
            rw [hsequence] at h
            dsimp only at h
            by_cases hsame : self = older
            · exact Or.inr hsame
            · rw [if_neg hsame] at h
              cases h
  · intro h
    obtain ⟨hline, hlater⟩ := h
    rw [if_neg (not_not.2 hline.lineage), if_neg (not_not.2 hline.protocol),
      if_neg (not_not.2 hline.epochs), compare_eq_iff_eq.2 hline.observation]
    show (if self.bridgeGeneration ≠ older.bridgeGeneration then _ else _ :
      AnchorContinuity).admitsOlderHandles = true
    rw [if_neg (not_not.2 hline.bridge)]
    rcases hlater with hlt | rfl
    · rw [compare_gt_iff_gt.2 hlt]
      rfl
    · rw [compare_eq_iff_eq.2 rfl]
      show (if self = self then _ else _ : AnchorContinuity).admitsOlderHandles = true
      rw [if_pos rfl]
      rfl

theorem SameLine.trans {a b c : StateAnchorV2} (h : a.SameLine b) (h' : b.SameLine c) :
    a.SameLine c :=
  ⟨h.lineage.trans h'.lineage, h.protocol.trans h'.protocol, h.epochs.trans h'.epochs,
    h.observation.trans h'.observation, h.bridge.trans h'.bridge⟩

theorem admits_self (a : StateAnchorV2) : a.admits a = true :=
  (admits_iff a a).2 ⟨⟨rfl, rfl, rfl, rfl, rfl⟩, Or.inr rfl⟩

theorem admits_trans {a b c : StateAnchorV2} (hab : a.admits b = true) (hbc : b.admits c = true) :
    a.admits c = true := by
  rw [admits_iff] at hab hbc ⊢
  obtain ⟨hline, hab⟩ := hab
  obtain ⟨hline', hbc⟩ := hbc
  refine ⟨hline.trans hline', ?_⟩
  rcases hab with hab | rfl
  · rcases hbc with hbc | rfl
    · exact Or.inl (hbc.trans hab)
    · exact Or.inl hab
  · exact hbc

/-- Handles pass both ways only between equal anchors. -/
theorem eq_of_admits {a b : StateAnchorV2} (hab : a.admits b = true) (hba : b.admits a = true) :
    a = b := by
  rw [admits_iff] at hab hba
  rcases hab.2 with hlt | rfl
  · rcases hba.2 with hlt' | rfl
    · exact absurd hlt (lt_asymm hlt')
    · rfl
  · rfl

theorem cmp_self (a : StateAnchorV2) : a.cmp a = .eq := by
  have hlex : ∀ bytes : Bytes, cmp.compareLex bytes bytes = .eq := by
    intro bytes
    induction bytes with
    | nil => rfl
    | cons b bytes ih =>
        simp [cmp.compareLex, ih]
  exact hlex a.canonicalBytes

end StateAnchorV2

/-- **The codec and the continuity of anchors.** The decoder returns an anchor exactly for its
canonical bytes, and exactly if its protocol label is valid, as that of every lifted anchor is. The
relation that admits the handles of older anchors is reflexive and transitive, and never holds both
ways between anchors that compare differently. -/
theorem anchor_codec_and_continuity :
    (∀ (bytes : Bytes) (a : StateAnchorV2), StateAnchorV2.fromCanonicalBytes bytes = .ok a ↔
      a.validate = .ok () ∧ bytes = a.canonicalBytes) ∧
    (∀ anchor epochs a, StateAnchorV2.fromV1 anchor epochs = .ok a → a.validate = .ok ()) ∧
    (∀ a : StateAnchorV2, a.admits a = true) ∧
    (∀ a b c : StateAnchorV2, a.admits b = true → b.admits c = true → a.admits c = true) ∧
    ∀ a b : StateAnchorV2, a.cmp b ≠ .eq → ¬ (a.admits b = true ∧ b.admits a = true) := by
  refine ⟨fun _ _ => StateAnchorV2.fromCanonicalBytes_ok_iff,
    fun _ _ _ => StateAnchorV2.validate_of_fromV1, StateAnchorV2.admits_self,
    fun _ _ _ => StateAnchorV2.admits_trans, ?_⟩
  intro a b hcmp hboth
  obtain rfl := StateAnchorV2.eq_of_admits hboth.1 hboth.2
  exact hcmp (StateAnchorV2.cmp_self a)

namespace Sample

/-- Anchors of one line, with a label and a sequence. -/
def anchorV2 (label : String) (sequence : U 64) : StateAnchorV2 :=
  ⟨Digest32.zero, 1, sequence, none, 0, label, 1, 1, 1, Digest32.zero⟩

def epochs : AnchorEpochs := ⟨Digest32.zero, 0, "lab", 1, 1, 1⟩

end Sample

/-- Three snapshots of one line in a row. -/
theorem anchor_codec_and_continuity_lab :
    StateAnchorV2.fromCanonicalBytes (Sample.anchorV2 "lab" 4).canonicalBytes =
      .ok (Sample.anchorV2 "lab" 4) ∧
    (∃ a, StateAnchorV2.fromV1 ⟨1, ⟨1, 4⟩, 100, Digest32.zero⟩ Sample.epochs = .ok a ∧
      a.validate = .ok ()) ∧
    (Sample.anchorV2 "lab" 6).admits (Sample.anchorV2 "lab" 4) = true ∧
    ¬ ((Sample.anchorV2 "lab" 6).admits (Sample.anchorV2 "lab" 4) = true ∧
      (Sample.anchorV2 "lab" 4).admits (Sample.anchorV2 "lab" 6) = true) := by
  obtain ⟨hcodec, hlifted, -, htrans, hboth⟩ := anchor_codec_and_continuity
  have hfrom : StateAnchorV2.fromV1 ⟨1, ⟨1, 4⟩, 100, Digest32.zero⟩ Sample.epochs =
      .ok ⟨Digest32.zero, 1, 4, some 100, 0, "lab", 1, 1, 1, Digest32.zero⟩ := by
    unfold StateAnchorV2.fromV1
    exact check_ok_iff.2 ⟨by decide, rfl⟩
  refine ⟨(hcodec _ _).2 ⟨by decide, rfl⟩, ⟨_, hfrom, hlifted _ _ _ hfrom⟩, ?_, ?_⟩
  · exact htrans _ (Sample.anchorV2 "lab" 5) _ (by decide) (by decide)
  · exact hboth _ _ (by decide)

/-- The decoder refuses the bytes of an anchor without a protocol label. -/
theorem anchor_codec_unlabelled :
    StateAnchorV2.fromCanonicalBytes (Sample.anchorV2 "" 4).canonicalBytes ≠
      .ok (Sample.anchorV2 "" 4) := by
  intro h
  exact absurd (StateAnchorV2.fromCanonicalBytes_ok_iff.1 h).1 (by decide)

end Dfmcp
